/-!
# Indentation

A block of text moves to the right by one step when each of its line breaks is followed by four
more spaces; its first line stays where it is, because it stands behind what precedes the block.
-/

namespace SoapTypes.Text

/-- One step of indentation. -/
def indentStep : String := "    "

/-- The characters that a character turns into when its block moves one step to the right. -/
def indentChar (c : Char) : List Char :=
  if c = '\n' then '\n' :: indentStep.toList else [c]

/-- Move all lines of a block but its first one step to the right. -/
def indent (s : String) : String := String.ofList (s.toList.flatMap indentChar)

@[simp] theorem toList_indent (s : String) :
    (indent s).toList = s.toList.flatMap indentChar := by
  simp [indent]

/-- Indentation acts on each part of a text on its own. -/
theorem indent_append (s t : String) : indent (s ++ t) = indent s ++ indent t := by
  rw [← String.toList_inj]
  simp [String.toList_append]

/-- A text on one line has nothing to move. -/
theorem indent_of_single_line {s : String} (h : '\n' ∉ s.toList) : indent s = s := by
  rw [← String.toList_inj, toList_indent]
  generalize s.toList = cs at h
  induction cs with
  | nil => rfl
  | cons c cs ih =>
    have hc : c ≠ '\n' := fun e => h (by simp [e])
    have hcs : '\n' ∉ cs := fun e => h (by simp [e])
    simp [indentChar, hc, ih hcs]

end SoapTypes.Text
