/-!
# Cutting and joining texts

* `pieces sep s` cuts a text at every `sep`: there is always a first piece, so the others come
  beside it. `joinWith_pieces` says that joining them again loses nothing.
* `joinWith sep` writes texts one after the other with `sep` between them.
-/

namespace SoapTypes.Text

/-- A text, unless it is empty. -/
def nonempty? (s : String) : Option String := if s.isEmpty then none else some s

/-- Cut a list at every `sep` into its first piece and the others. -/
def cut (sep : Char) : List Char → List Char × List (List Char)
  | [] => ([], [])
  | c :: cs =>
    let (first, others) := cut sep cs
    if c = sep then ([], first :: others) else (c :: first, others)

/-- The pieces of a text between the occurrences of `sep`: the first one and the others. -/
def pieces (sep : Char) (s : String) : String × List String :=
  let (first, others) := cut sep s.toList
  (String.ofList first, others.map String.ofList)

/-- All pieces of a text between the occurrences of `sep`. -/
def allPieces (sep : Char) (s : String) : List String :=
  let (first, others) := pieces sep s
  first :: others

/-- Texts one after the other with `sep` between neighbours. -/
def joinWith (sep : String) : List String → String
  | [] => ""
  | [s] => s
  | s :: t :: rest => s ++ sep ++ joinWith sep (t :: rest)

@[simp] theorem joinWith_nil (sep : String) : joinWith sep [] = "" := rfl
@[simp] theorem joinWith_singleton (sep s : String) : joinWith sep [s] = s := rfl
@[simp] theorem joinWith_cons_cons (sep s t : String) (rest : List String) :
    joinWith sep (s :: t :: rest) = s ++ sep ++ joinWith sep (t :: rest) := rfl

@[simp] theorem cut_nil (sep : Char) : cut sep [] = ([], []) := rfl

theorem cut_cons (sep c : Char) (cs : List Char) :
    cut sep (c :: cs) =
      if c = sep then ([], (cut sep cs).1 :: (cut sep cs).2)
      else (c :: (cut sep cs).1, (cut sep cs).2) := rfl

/-- No piece holds the separator. -/
theorem not_mem_cut (sep : Char) (cs : List Char) :
    sep ∉ (cut sep cs).1 ∧ ∀ piece ∈ (cut sep cs).2, sep ∉ piece := by
  induction cs with
  | nil => simp
  | cons c cs ih =>
    rw [cut_cons]
    by_cases h : c = sep
    · simpa [h] using ih
    · have h' : ¬ sep = c := fun e => h e.symm
      simpa [h, h'] using ih

theorem toList_joinWith_cut (sep : Char) (cs : List Char) :
    (joinWith (String.ofList [sep])
      ((String.ofList (cut sep cs).1) :: (cut sep cs).2.map String.ofList)).toList = cs := by
  induction cs with
  | nil => simp
  | cons c cs ih =>
    rw [cut_cons]
    by_cases h : c = sep
    · subst h
      simpa [String.toList_append] using ih
    · simp only [if_neg h]
      cases hr : (cut sep cs).2 with
      | nil => simpa [hr] using ih
      | cons p ps => simpa [hr, String.toList_append] using ih

/-- Joining the pieces of a text with their separator gives the text back. -/
theorem joinWith_pieces (sep : Char) (s : String) :
    joinWith (String.ofList [sep]) (allPieces sep s) = s := by
  rw [← String.toList_inj]
  exact toList_joinWith_cut sep s.toList

end SoapTypes.Text
