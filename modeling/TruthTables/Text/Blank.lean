namespace TruthTables.Text

-- The characters with the Unicode property White_Space, together with the four ASCII separators
-- U+001C to U+001F.
def isBlank (c : Char) : Bool :=
  let n := c.toNat
  (9 ≤ n && n ≤ 13) || (0x1c ≤ n && n ≤ 0x20) || n == 0x85 || n == 0xa0 || n == 0x1680
    || (0x2000 ≤ n && n ≤ 0x200a) || n == 0x2028 || n == 0x2029 || n == 0x202f || n == 0x205f
    || n == 0x3000

def solid (text : List Char) : List Char :=
  text.filter fun c => !isBlank c

def trim (text : List Char) : List Char :=
  ((text.dropWhile isBlank).reverse.dropWhile isBlank).reverse

@[simp] theorem solid_append (front back : List Char) :
    solid (front ++ back) = solid front ++ solid back := by
  simp [solid]

theorem isBlank_eq_false_of_mem_solid {text : List Char} {c : Char} (member : c ∈ solid text) :
    isBlank c = false := by
  simpa using (List.mem_filter.mp member).2

end TruthTables.Text
