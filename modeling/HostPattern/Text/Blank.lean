/-!
White space in the sense of the Unicode property `White_Space`, and its
removal from both ends of a text.
-/

namespace HostPattern.Text

/-- The characters with the property `White_Space`. -/
def isBlank (c : Char) : Bool :=
  let code := c.toNat
  (0x09 ≤ code && code ≤ 0x0D) || code = 0x20 || code = 0x85 || code = 0xA0 || code = 0x1680 ||
    (0x2000 ≤ code && code ≤ 0x200A) || code = 0x2028 || code = 0x2029 || code = 0x202F ||
    code = 0x205F || code = 0x3000

def trimChars (text : List Char) : List Char :=
  ((text.dropWhile isBlank).reverse.dropWhile isBlank).reverse

/-- The text without the blanks at its ends, if anything is left of it. -/
def nonBlank? (text : String) : Option String :=
  match trimChars text.toList with
  | [] => none
  | c :: chars => some (String.ofList (c :: chars))

theorem dropWhile_isBlank_eq_nil_iff {text : List Char} :
    text.dropWhile isBlank = [] ↔ ∀ c ∈ text, isBlank c = true := by
  induction text with
  | nil => simp
  | cons c text hypothesis =>
    by_cases blank : isBlank c = true <;> simp [blank, hypothesis]

theorem trimChars_eq_nil_iff {text : List Char} :
    trimChars text = [] ↔ ∀ c ∈ text, isBlank c = true := by
  simp only [trimChars, List.reverse_eq_nil_iff, dropWhile_isBlank_eq_nil_iff, List.mem_reverse]
  constructor
  · intro blank
    rw [← dropWhile_isBlank_eq_nil_iff]
    cases rest : text.dropWhile isBlank with
    | nil => rfl
    | cons c chars =>
      have first := List.head_dropWhile_not isBlank (l := text) (by simp [rest])
      simp only [rest, List.head_cons] at first
      simp [blank c (by simp [rest])] at first
  · intro blank c member
    exact blank c ((List.dropWhile_suffix isBlank).subset member)

end HostPattern.Text
