namespace ElementBridge.Text

/-- Binary search for the range that holds `c` among `table[lo], …, table[hi - 1]`, which are
sorted and disjoint. The first argument bounds the number of halvings. -/
def searchRanges (table : Array (Nat × Nat)) (c : Nat) : Nat → Nat → Nat → Bool
  | 0, _, _ => false
  | steps + 1, lo, hi =>
      if lo < hi then
        let mid := (lo + hi) / 2
        match table[mid]? with
        | none => false
        | some (first, last) =>
            if c < first then searchRanges table c steps lo mid
            else if last < c then searchRanges table c steps (mid + 1) hi
            else true
      else false

def inRanges (table : Array (Nat × Nat)) (c : Char) : Bool :=
  searchRanges table c.toNat (table.size + 1) 0 table.size

end ElementBridge.Text
