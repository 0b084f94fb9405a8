import PhaseHost.Json.Decode

/-! # Overlays

    An overlay gives the contents of files by path, its paths in ascending
    order.  So an overlay is what its look-ups say, and it has one written form. -/

namespace PhaseHost

/-- File contents by path. -/
structure Overlay where
  files : Fields String
  ascending : Fields.Ascending files
  deriving DecidableEq, Repr

namespace Overlay

/-- An overlay without files. -/
def empty : Overlay := ⟨[], .nil⟩

instance : Inhabited Overlay := ⟨empty⟩

/-- The overlay of a list of files; of several contents for one path the last counts. -/
def ofList (files : List (String × String)) : Overlay :=
  ⟨Fields.ofList files, Fields.ascending_ofList files⟩

/-- The content of a file. -/
def find? (path : String) (o : Overlay) : Option String :=
  Fields.find? path o.files

/-- Whether a file is there. -/
def contains (path : String) (o : Overlay) : Bool :=
  Fields.contains path o.files

/-- Write a file. -/
def insert (path content : String) (o : Overlay) : Overlay :=
  ⟨Fields.insert path content o.files, o.ascending.insert path content⟩

/-- Remove a file. -/
def erase (path : String) (o : Overlay) : Overlay :=
  ⟨Fields.erase path o.files, o.ascending.erase path⟩

/-- An overlay on the wire. -/
def toJson (o : Overlay) : Json :=
  .obj (o.files.map (fun (path, content) => (path, .str content)))

/-- Read an overlay. -/
def ofJson (v : Json) : Decoded Overlay :=
  (Json.toTable Json.toText v).map ofList

@[simp] theorem ofList_files (o : Overlay) : ofList o.files = o := by
  cases o with
  | mk files ascending => simp [ofList, Fields.ofList_eq_self ascending]

/-- A file is there if it has a content. -/
theorem contains_eq (path : String) (o : Overlay) : o.contains path = (o.find? path).isSome := rfl

@[simp] theorem find?_empty (path : String) : empty.find? path = none := rfl

@[simp] theorem find?_insert_self (path content : String) (o : Overlay) :
    (o.insert path content).find? path = some content :=
  Fields.find?_insert_self path content o.files

theorem find?_insert_of_ne {path other : String} (h : other ≠ path) (content : String)
    (o : Overlay) : (o.insert path content).find? other = o.find? other :=
  Fields.find?_insert_of_ne h content o.files

@[simp] theorem find?_erase_self (path : String) (o : Overlay) :
    (o.erase path).find? path = none :=
  Fields.find?_erase_self path o.files

theorem find?_erase_of_ne {path other : String} (h : other ≠ path) (o : Overlay) :
    (o.erase path).find? other = o.find? other :=
  Fields.find?_erase_of_ne h o.files

end Overlay
end PhaseHost
