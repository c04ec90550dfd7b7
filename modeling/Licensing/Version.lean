/-!
The version of the library.
-/

namespace Licensing

def version : String := "0.1.0"

end Licensing
