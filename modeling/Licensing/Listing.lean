/-!
Listings: values under names, in the order in which the names were first given. Giving a name again
changes its value and not its place, so a listing that grew by `put` alone has no name twice.
-/

namespace Licensing

/-- Values under names, in the order in which the names came. -/
abbrev Listing (α : Type) := List (String × α)

namespace Listing

variable {α β : Type}

def get? (entries : Listing α) (name : String) : Option α :=
  entries.lookup name

def has (entries : Listing α) (name : String) : Bool :=
  (entries.get? name).isSome

def names (entries : Listing α) : List String :=
  entries.map Prod.fst

/-- The listing with a value under a name: in the name's old place, or at the end. -/
def put : Listing α → String → α → Listing α
  | [], name, value => [(name, value)]
  | (other, old) :: rest, name, value =>
    if other = name then (other, value) :: rest else (other, old) :: put rest name value

@[simp] theorem get?_nil (name : String) : get? ([] : Listing α) name = none := rfl

theorem get?_cons (other name : String) (value : α) (rest : Listing α) :
    get? ((other, value) :: rest) name = if other = name then some value else rest.get? name := by
  by_cases h : other = name
  · subst h; simp [get?]
  · have h' : (name == other) = false := by simp; exact fun e => h e.symm
    simp [get?, List.lookup_cons, h, h']

/-- A value that is put under a name is found there, and nothing else changes. -/
theorem get?_put (entries : Listing α) (name asked : String) (value : α) :
    (entries.put name value).get? asked =
      if name = asked then some value else entries.get? asked := by
  induction entries with
  | nil => simp [put, get?_cons]
  | cons entry rest ih =>
      obtain ⟨other, old⟩ := entry
      by_cases h : other = name
      · subst h
        by_cases h' : other = asked <;> simp [put, get?_cons, h']
      · by_cases h' : other = asked
        · subst h'
          simp [put, get?_cons, h, Ne.symm h]
        · simp [put, get?_cons, h, h', ih]

/-- Values that are put under names of their own are found under these. -/
theorem name_of_get?_foldl_put {nameOf : α → String} {values : List α} {entries : Listing α}
    (hEntries : ∀ {name : String} {value : α}, entries.get? name = some value → nameOf value = name)
    {name : String} {value : α}
    (h : (values.foldl (fun listed v => listed.put (nameOf v) v) entries).get? name = some value) :
    nameOf value = name := by
  induction values generalizing entries with
  | nil => exact hEntries h
  | cons first rest ih =>
      refine ih (fun {other old} hOther => ?_) h
      rw [get?_put] at hOther
      split at hOther
      · rename_i hName
        rw [← Option.some.inj hOther, hName]
      · exact hEntries hOther

theorem get?_eq_none_iff {entries : Listing α} {name : String} :
    entries.get? name = none ↔ name ∉ entries.names := by
  induction entries with
  | nil => simp [names]
  | cons entry rest ih =>
      obtain ⟨other, value⟩ := entry
      by_cases h : other = name
      · simp [get?_cons, names, h]
      · simp only [get?_cons, h, if_false, ih, names, List.map_cons, List.mem_cons, not_or]
        exact ⟨fun hRest => ⟨fun e => h e.symm, hRest⟩, And.right⟩

theorem mem_of_get? {entries : Listing α} {name : String} {value : α}
    (h : entries.get? name = some value) : (name, value) ∈ entries := by
  induction entries with
  | nil => simp at h
  | cons entry rest ih =>
      obtain ⟨other, old⟩ := entry
      rw [get?_cons] at h
      split at h
      · rename_i hName
        simp_all
      · exact List.mem_cons_of_mem _ (ih h)

theorem mem_of_mem_put {entries : Listing α} {name : String} {value : α}
    {listed : String × α} (h : listed ∈ entries.put name value) :
    listed = (name, value) ∨ listed ∈ entries := by
  induction entries with
  | nil => exact Or.inl (List.mem_singleton.1 h)
  | cons entry rest ih =>
      obtain ⟨other, old⟩ := entry
      rw [put] at h
      split at h
      · rename_i hName
        rcases List.mem_cons.1 h with hNew | hRest
        · exact Or.inl (by rw [hNew, hName])
        · exact Or.inr (List.mem_cons_of_mem _ hRest)
      · rcases List.mem_cons.1 h with hSame | hRest
        · exact Or.inr (hSame ▸ List.mem_cons_self)
        · rcases ih hRest with hNew | hOld
          · exact Or.inl hNew
          · exact Or.inr (List.mem_cons_of_mem _ hOld)

/-- A name that is there keeps its place. -/
theorem names_put (entries : Listing α) (name : String) (value : α) :
    (entries.put name value).names =
      if name ∈ entries.names then entries.names else entries.names ++ [name] := by
  induction entries with
  | nil => simp [put, names]
  | cons entry rest ih =>
      obtain ⟨other, old⟩ := entry
      by_cases h : other = name
      · simp [put, names, h]
      · have h' : name ≠ other := Ne.symm h
        simp only [names] at ih
        by_cases hRest : name ∈ rest.map Prod.fst
        · simp [put, names, h, h', ih, hRest]
        · simp [put, names, h, h', ih, hRest]

/-- Giving values one after another keeps the names of a listing distinct. -/
theorem names_put_nodup {entries : Listing α} (h : entries.names.Nodup) (name : String)
    (value : α) : (entries.put name value).names.Nodup := by
  rw [names_put]
  split
  · exact h
  · rename_i hName
    rw [List.nodup_append]
    refine ⟨h, by simp, ?_⟩
    rintro a ha b hb rfl
    simp_all

end Listing

end Licensing
