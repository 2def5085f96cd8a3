/-!
Line breaks. A text that is read line by line has one kind of them: a carriage
return, alone or with the line feed behind it, counts as a line feed. Nothing
but these two characters is touched.
-/

set_option autoImplicit false
set_option relaxedAutoImplicit false

namespace Brainfuck.Text.LineBreak

/-- Goes through the rest of a text; what has been read is kept newest first. -/
def unifyFrom (read : List Char) : List Char → List Char
  | [] => read.reverse
  | '\r' :: '\n' :: rest => unifyFrom ('\n' :: read) rest
  | '\r' :: rest => unifyFrom ('\n' :: read) rest
  | c :: rest => unifyFrom (c :: read) rest

/-- The text with a line feed for every line break. -/
def unify (text : List Char) : List Char :=
  unifyFrom [] text

/-- Without the line breaks the text is the same as before. -/
theorem filter_unify {keep : Char → Bool} (hreturn : keep '\r' = false)
    (hfeed : keep '\n' = false) (text : List Char) :
    (unify text).filter keep = text.filter keep := by
  have hfrom (read : List Char) :
      (unifyFrom read text).filter keep = read.reverse.filter keep ++ text.filter keep := by
    fun_induction unifyFrom read text with
    | case1 read => simp
    | case2 read rest ih => simp [ih, hreturn, hfeed]
    | case3 read rest _ ih => simp [ih, hreturn, hfeed]
    | case4 read c rest _ _ ih =>
      rw [ih, List.reverse_cons, List.filter_append, List.append_assoc, ← List.filter_append]
      rfl
  exact hfrom []

/-- Line feeds are the only line breaks that are left. -/
theorem return_not_mem_unify (text : List Char) : '\r' ∉ unify text := by
  have hfrom (read : List Char) (hread : '\r' ∉ read) : '\r' ∉ unifyFrom read text := by
    fun_induction unifyFrom read text with
    | case1 read => simpa using hread
    | case2 read rest ih => exact ih (by simpa using hread)
    | case3 read rest _ ih => exact ih (by simpa using hread)
    | case4 read c rest _ hc ih => exact ih (by simpa [eq_comm] using ⟨hc, hread⟩)
  exact hfrom [] List.not_mem_nil

end Brainfuck.Text.LineBreak
