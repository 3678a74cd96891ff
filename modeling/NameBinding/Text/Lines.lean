/-!
# Splitting texts

* `split` — the pieces of a text between occurrences of a character.
* `split_eq_splitOn` — they are those of `List.splitOn`.
-/

namespace NameBinding
namespace Text

/-- The pieces of a text between the occurrences of `sep`; there is one more of them
than of those. -/
def split (sep : Char) : List Char → List (List Char)
  | [] => [[]]
  | c :: cs =>
      if c = sep then [] :: split sep cs
      else
        match split sep cs with
        | [] => [[c]]
        | piece :: pieces => (c :: piece) :: pieces

theorem split_eq_splitOn (sep : Char) (cs : List Char) : split sep cs = cs.splitOn sep := by
  induction cs with
  | nil => rfl
  | cons c cs ih =>
    have hne := List.splitOn_ne_nil sep cs
    rw [split, List.splitOn_cons_eq_if_modifyHead, ih]
    by_cases hc : c = sep
    · rw [if_pos hc, if_pos (beq_iff_eq.mpr hc)]
    · rw [if_neg hc, if_neg (fun h => hc (beq_iff_eq.mp h))]
      cases hs : cs.splitOn sep with
      | nil => exact absurd hs hne
      | cons piece pieces => rfl

end Text
end NameBinding
