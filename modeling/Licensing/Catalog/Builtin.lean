import Licensing.Catalog.Merge

/-!
The catalog that is there without any file. It is kept as a document, since a user document is laid
over its fields and not over the entries that they give: adding the `-or-later` form of a license
makes the other licenses of its family eligible.
-/

namespace Licensing.Catalog

/-- The identifiers and names of the licenses, and whether each is deprecated. -/
def builtinLicenses : List (String × String × Bool) :=
  [("0BSD", "BSD Zero Clause License", false),
    ("AFL-3.0", "Academic Free License v3.0", false),
    ("AGPL-1.0", "Affero General Public License v1.0", true),
    ("AGPL-3.0", "GNU Affero General Public License v3.0", true),
    ("AGPL-3.0-only", "GNU Affero General Public License v3.0 only", false),
    ("AGPL-3.0-or-later", "GNU Affero General Public License v3.0 or later", false),
    ("Apache-1.0", "Apache License 1.0", false),
    ("Apache-1.1", "Apache License 1.1", false),
    ("Apache-2.0", "Apache License 2.0", false),
    ("APSL-2.0", "Apple Public Source License 2.0", false),
    ("Artistic-1.0", "Artistic License 1.0", false),
    ("Artistic-2.0", "Artistic License 2.0", false),
    ("BlueOak-1.0.0", "Blue Oak Model License 1.0.0", false),
    ("BSD-1-Clause", "BSD 1-Clause License", false),
    ("BSD-2-Clause", "BSD 2-Clause \"Simplified\" License", false),
    ("BSD-2-Clause-FreeBSD", "BSD 2-Clause FreeBSD License", true),
    ("BSD-3-Clause", "BSD 3-Clause \"New\" or \"Revised\" License", false),
    ("BSD-4-Clause", "BSD 4-Clause \"Original\" or \"Old\" License", false),
    ("BSL-1.0", "Boost Software License 1.0", false),
    ("CC-BY-3.0", "Creative Commons Attribution 3.0 Unported", false),
    ("CC-BY-4.0", "Creative Commons Attribution 4.0 International", false),
    ("CC-BY-SA-4.0", "Creative Commons Attribution Share Alike 4.0 International", false),
    ("CC0-1.0", "Creative Commons Zero v1.0 Universal", false),
    ("CDDL-1.0", "Common Development and Distribution License 1.0", false),
    ("CDDL-1.1", "Common Development and Distribution License 1.1", false),
    ("CPL-1.0", "Common Public License 1.0", false),
    ("ECL-2.0", "Educational Community License v2.0", false),
    ("eCos-2.0", "eCos license version 2.0", true),
    ("EPL-1.0", "Eclipse Public License 1.0", false),
    ("EPL-2.0", "Eclipse Public License 2.0", false),
    ("EUPL-1.1", "European Union Public License 1.1", false),
    ("EUPL-1.2", "European Union Public License 1.2", false),
    ("FTL", "Freetype Project License", false),
    ("GFDL-1.3", "GNU Free Documentation License v1.3", true),
    ("GFDL-1.3-only", "GNU Free Documentation License v1.3 only", false),
    ("GFDL-1.3-or-later", "GNU Free Documentation License v1.3 or later", false),
    ("GPL-1.0", "GNU General Public License v1.0 only", true),
    ("GPL-1.0+", "GNU General Public License v1.0 or later", true),
    ("GPL-1.0-only", "GNU General Public License v1.0 only", false),
    ("GPL-1.0-or-later", "GNU General Public License v1.0 or later", false),
    ("GPL-2.0", "GNU General Public License v2.0 only", true),
    ("GPL-2.0+", "GNU General Public License v2.0 or later", true),
    ("GPL-2.0-only", "GNU General Public License v2.0 only", false),
    ("GPL-2.0-or-later", "GNU General Public License v2.0 or later", false),
    ("GPL-2.0-with-classpath-exception",
      "GNU General Public License v2.0 w/Classpath exception", true),
    ("GPL-3.0", "GNU General Public License v3.0 only", true),
    ("GPL-3.0+", "GNU General Public License v3.0 or later", true),
    ("GPL-3.0-only", "GNU General Public License v3.0 only", false),
    ("GPL-3.0-or-later", "GNU General Public License v3.0 or later", false),
    ("ISC", "ISC License", false),
    ("LGPL-2.0", "GNU Library General Public License v2 only", true),
    ("LGPL-2.0+", "GNU Library General Public License v2 or later", true),
    ("LGPL-2.0-only", "GNU Library General Public License v2 only", false),
    ("LGPL-2.0-or-later", "GNU Library General Public License v2 or later", false),
    ("LGPL-2.1", "GNU Lesser General Public License v2.1 only", true),
    ("LGPL-2.1+", "GNU Lesser General Public License v2.1 or later", true),
    ("LGPL-2.1-only", "GNU Lesser General Public License v2.1 only", false),
    ("LGPL-2.1-or-later", "GNU Lesser General Public License v2.1 or later", false),
    ("LGPL-3.0", "GNU Lesser General Public License v3.0 only", true),
    ("LGPL-3.0+", "GNU Lesser General Public License v3.0 or later", true),
    ("LGPL-3.0-only", "GNU Lesser General Public License v3.0 only", false),
    ("LGPL-3.0-or-later", "GNU Lesser General Public License v3.0 or later", false),
    ("MIT", "MIT License", false),
    ("MIT-0", "MIT No Attribution", false),
    ("MPL-1.0", "Mozilla Public License 1.0", false),
    ("MPL-1.1", "Mozilla Public License 1.1", false),
    ("MPL-2.0", "Mozilla Public License 2.0", false),
    ("MPL-2.0-no-copyleft-exception", "Mozilla Public License 2.0 (no copyleft exception)", false),
    ("MS-PL", "Microsoft Public License", false),
    ("MS-RL", "Microsoft Reciprocal License", false),
    ("NCSA", "University of Illinois/NCSA Open Source License", false),
    ("OFL-1.1", "SIL Open Font License 1.1", false),
    ("OpenSSL", "OpenSSL License", false),
    ("PHP-3.01", "PHP License v3.01", false),
    ("PostgreSQL", "PostgreSQL License", false),
    ("PSF-2.0", "Python Software Foundation License 2.0", false),
    ("Python-2.0", "Python License 2.0", false),
    ("Ruby", "Ruby License", false),
    ("StandardML-NJ", "Standard ML of New Jersey License", true),
    ("Unicode-DFS-2016", "Unicode License Agreement - Data Files and Software (2016)", false),
    ("Unlicense", "The Unlicense", false),
    ("UPL-1.0", "Universal Permissive License v1.0", false),
    ("Vim", "Vim License", false),
    ("W3C", "W3C Software Notice and License (2002-12-31)", false),
    ("WTFPL", "Do What The F*ck You Want To Public License", false),
    ("wxWindows", "wxWindows Library License", true),
    ("X11", "X11 License", false),
    ("Zlib", "zlib License", false),
    ("ZPL-2.1", "Zope Public License 2.1", false)]

/-- The identifiers and names of the exceptions, and whether each is deprecated. -/
def builtinExceptions : List (String × String × Bool) :=
  [("389-exception", "389 Directory Server Exception", false),
    ("Autoconf-exception-2.0", "Autoconf exception 2.0", false),
    ("Autoconf-exception-3.0", "Autoconf exception 3.0", false),
    ("Bison-exception-2.2", "Bison exception 2.2", false),
    ("Classpath-exception-2.0", "Classpath exception 2.0", false),
    ("Font-exception-2.0", "Font exception 2.0", false),
    ("GCC-exception-2.0", "GCC Runtime Library exception 2.0", false),
    ("GCC-exception-3.1", "GCC Runtime Library exception 3.1", false),
    ("LGPL-3.0-linking-exception", "LGPL-3.0 Linking Exception", false),
    ("Libtool-exception", "Libtool Exception", false),
    ("Linux-syscall-note", "Linux Syscall Note", false),
    ("LLVM-exception", "LLVM Exception", false),
    ("OCaml-LGPL-linking-exception", "OCaml LGPL Linking Exception", false),
    ("OpenJDK-assembly-exception-1.0", "OpenJDK Assembly exception 1.0", false),
    ("Qt-GPL-exception-1.0", "Qt GPL exception 1.0", false),
    ("Qt-LGPL-exception-1.1", "Qt LGPL exception 1.1", false),
    ("u-boot-exception-2.0", "U-Boot exception 2.0", false),
    ("Universal-FOSS-exception-1.0", "Universal FOSS Exception, Version 1.0", false),
    ("WxWindows-exception-3.1", "WxWindows Library Exception 3.1", false),
    ("Nokia-Qt-exception-1.1", "Nokia Qt LGPL exception 1.1", true)]

/-- The fields of an entry; only a deprecated one has the flag. -/
def builtinFields (name : String) (deprecated : Bool) : Toml.Table :=
  (nameField, .text name) :: if deprecated then [(deprecatedField, .boolean true)] else []

def builtinPart (entries : List (String × String × Bool)) : Toml.Value :=
  .table (entries.map fun (id, name, deprecated) => (id, .table (builtinFields name deprecated)))

def builtinDocument : Toml.Table :=
  [(Part.licenses.name, builtinPart builtinLicenses),
    (Part.exceptions.name, builtinPart builtinExceptions)]

def builtin : Catalog :=
  (Draft.ofDocuments builtinDocument none).catalog

end Licensing.Catalog
