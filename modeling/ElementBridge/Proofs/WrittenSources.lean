import ElementBridge.Surface.OfSource

/-!
Sources that are written out as literals. They are read from the letters of the literal, so that an
evaluation does not decode the text first.
-/

namespace ElementBridge

theorem ofList_append {a b : String} {as bs : List Char} (ha : a = String.ofList as)
    (hb : b = String.ofList bs) : a ++ b = String.ofList (as ++ bs) := by
  rw [ha, hb, String.ofList_append]

theorem SourceFile.parse_eq_elim (file : SourceFile) {letters : List Char}
    (h : file.text = String.ofList letters) : file.parse = (Grammar.parse letters).elim
      (.error (.unparsable file.name "the text is not a TypeScript module")) .ok := by
  have htree : Tree.Module.ofText? file.text = Grammar.parse letters := by
    rw [Tree.Module.ofText?, h, String.toList_ofList]
  unfold parse
  rw [htree]
  cases Grammar.parse letters <;> rfl

end ElementBridge
