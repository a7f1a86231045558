/-!
# White space

The characters with the Unicode property `White_Space`, and text without them at its two ends.
-/

namespace Fieldbus.Text

def isBlank (c : Char) : Bool :=
  let code := c.toNat
  (0x09 ≤ code && code ≤ 0x0D) || code == 0x20 || code == 0x85 || code == 0xA0 ||
  code == 0x1680 || (0x2000 ≤ code && code ≤ 0x200A) || code == 0x2028 || code == 0x2029 ||
  code == 0x202F || code == 0x205F || code == 0x3000

/-- The text from its first to its last character that is not white space. -/
def trim (text : List Char) : List Char :=
  ((text.dropWhile isBlank).reverse.dropWhile isBlank).reverse

theorem trim_sublist (text : List Char) : (trim text).Sublist text := by
  have hback := List.dropWhile_sublist isBlank (l := (text.dropWhile isBlank).reverse)
  rw [← List.reverse_sublist, List.reverse_reverse] at hback
  exact hback.trans (List.dropWhile_sublist isBlank)

theorem trim_eq_self {text : List Char} (hblank : ∀ c ∈ text, isBlank c = false) :
    trim text = text := by
  have hkeep : ∀ {text : List Char}, (∀ c ∈ text, isBlank c = false) →
      text.dropWhile isBlank = text := by
    intro text hblank
    cases text with
    | nil => rfl
    | cons c rest => simp [hblank c]
  rw [trim, hkeep hblank, hkeep fun c hmem => hblank c (List.mem_reverse.mp hmem),
    List.reverse_reverse]

end Fieldbus.Text
