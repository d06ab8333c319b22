import Warden.SourceText

/-!
# Lines of a source text

The lines of a text are its pieces between newlines, without a last empty one
(`SourceText.pieces`). What the stored ranges cut out of the text are these pieces, in order
(`SourceText.slices_cut`). So every range lies on boundaries of characters, and a line is quoted
exactly if there is a piece of that number (`SourceText.lines_are_exact`).
-/

namespace Warden.SourceText

/-- The pieces of a text between its newlines, without a last one that is empty. -/
def pieces (text : List Char) : List (List Char) :=
  let all := text.splitOn '\n'
  if all.getLast? = some [] then all.dropLast else all

/-- A line as it is quoted is the piece up to the carriage returns at its end. -/
def Quotes (piece : List Char) (line : String) : Prop :=
  (∃ n, piece = line.toList ++ List.replicate n '\r') ∧ line.toList.getLast? ≠ some '\r'

/-! ### Pieces -/

theorem pieces_of_notMem {piece : List Char} (h : '\n' ∉ piece) :
    pieces piece = if piece = [] then [] else [piece] := by
  simp [pieces, List.splitOn_eq_singleton h]

/-- The text up to the first newline is the first piece. -/
theorem pieces_append_newline {piece : List Char} (h : '\n' ∉ piece) (rest : List Char) :
    pieces (piece ++ '\n' :: rest) = piece :: pieces rest := by
  have hrest := List.splitOn_ne_nil '\n' rest
  simp only [pieces, List.splitOn_append_cons_self_of_not_mem h, List.getLast?_cons_of_ne_nil hrest,
    List.dropLast_cons_of_ne_nil hrest]
  split <;> rfl

/-- What is left of a piece without its last carriage returns quotes it. -/
theorem quotes_trimReturns (piece : List Char) :
    Quotes piece (String.ofList (trimReturns piece)) := by
  rw [Quotes, String.toList_ofList, trimReturns, List.getLast?_reverse]
  constructor
  · have hreturns : piece.reverse.takeWhile (· == '\r') =
        List.replicate (piece.reverse.takeWhile (· == '\r')).length '\r' :=
      List.eq_replicate_iff.mpr ⟨rfl, fun c hc => by
        simpa using List.all_eq_true.mp List.all_takeWhile c hc⟩
    refine ⟨(piece.reverse.takeWhile (· == '\r')).length, ?_⟩
    rw [← List.reverse_replicate, ← hreturns, ← List.reverse_append,
      List.takeWhile_append_dropWhile, List.reverse_reverse]
  · intro hhead
    have hnot := List.head?_dropWhile_not (· == '\r') piece.reverse
    simp [hhead] at hnot

/-! ### Ranges -/

/-- How many bytes characters take. -/
def width (cs : List Char) : Nat :=
  (String.ofList cs).utf8ByteSize

theorem width_append (cs ds : List Char) : width (cs ++ ds) = width cs + width ds := by
  simp [width]

theorem width_append_singleton (cs : List Char) (c : Char) :
    width (cs ++ [c]) = width cs + c.utf8Size := by
  simp [width]

variable {text : String}

theorem isValid_width {before : List Char} (after : List Char)
    (htext : text.toList = before ++ after) : String.Pos.Raw.IsValid text ⟨width before⟩ := by
  refine String.Pos.Raw.isValid_iff_exists_append.mpr ⟨.ofList before, .ofList after, ?_, rfl⟩
  rw [← String.ofList_append, ← htext, String.ofList_toList]

/-- Between the places where a part of the text begins and ends stands that part. -/
theorem slice?_width {before part after : List Char}
    (htext : text.toList = before ++ part ++ after) :
    slice? text (width before) (width (before ++ part)) = some (String.ofList part) := by
  have hvalid : String.Pos.Raw.IsValid text ⟨width before⟩ ∧
      String.Pos.Raw.IsValid text ⟨width (before ++ part)⟩ ∧
      width before ≤ width (before ++ part) := by
    refine ⟨isValid_width (part ++ after) (by simpa using htext), isValid_width after htext, ?_⟩
    rw [width_append]
    exact Nat.le_add_right ..
  have hsplit : text = String.ofList before ++ String.ofList part ++ String.ofList after := by
    rw [← String.ofList_append, ← String.ofList_append, ← htext, String.ofList_toList]
  have hbytes : text.toByteArray.extract (width before) (width (before ++ part)) =
      (String.ofList part).toByteArray := by
    rw [hsplit, width_append, String.append_assoc, String.toByteArray_append,
      String.toByteArray_append]
    exact (ByteArray.extract_append_size_add' (i := 0) rfl).trans
      (ByteArray.extract_append_eq_left rfl)
  rw [slice?, dif_pos hvalid, Option.some.injEq, ← String.toByteArray_inj, ← hbytes]
  exact String.toByteArray_extract

/-- The ranges cut out the pieces. The induction is on what is left of the text: `before` is what
stands before the line that is being read, and `line` is what has been read of it. -/
theorem slices_cut {rest : List Char} : ∀ before line : List Char,
    text.toList = before ++ line ++ rest → '\n' ∉ line →
    (cut (width before) (width (before ++ line)) rest).map (fun r => slice? text r.1 r.2) =
      (pieces (line ++ rest)).map fun piece => some (String.ofList piece) := by
  induction rest with
  | nil =>
    intro before line htext hline
    rw [List.append_nil, pieces_of_notMem hline, cut]
    by_cases hempty : line = []
    · simp [hempty]
    · have hpos : 0 < width line := Nat.pos_of_ne_zero (by simp [width, hempty])
      have hlt : width before < width (before ++ line) := by
        rw [width_append]
        exact Nat.lt_add_of_pos_right hpos
      rw [if_neg hempty, if_pos hlt, List.map_singleton, List.map_singleton, slice?_width htext]
  | cons c rest ih =>
    intro before line htext hline
    simp only [cut, ← width_append_singleton]
    split
    next hc =>
      subst hc
      have hrest := ih (before ++ line ++ ['\n']) [] (by simpa using htext)
        List.not_mem_nil
      rw [pieces_append_newline hline, List.map_cons, List.map_cons, slice?_width htext]
      rw [List.append_nil, List.nil_append] at hrest
      rw [hrest]
    next hc =>
      have hrest := ih before (line ++ [c]) (by simpa using htext)
        (by simp [hline, Ne.symm hc])
      simpa using hrest

theorem slices_ofString (text : String) :
    (ofString text).ranges.map (fun r => slice? text r.1 r.2) =
      (pieces text.toList).map fun piece => some (String.ofList piece) :=
  slices_cut [] [] rfl List.not_mem_nil

theorem line?_ofString (text : String) (n : Nat) : (ofString text).line? (n + 1) =
    (pieces text.toList)[n]?.map fun piece => String.ofList (trimReturns piece) := by
  have hslice : (ofString text).ranges[n]?.map (fun r => slice? text r.1 r.2) =
      (pieces text.toList)[n]?.map fun piece => some (String.ofList piece) := by
    rw [← List.getElem?_map, ← List.getElem?_map, slices_ofString]
  have hline : (ofString text).line? (n + 1) =
      ((ofString text).ranges[n]?.map fun r => slice? text r.1 r.2).bind
        (·.map fun line => String.ofList (trimReturns line.toList)) := by
    simp only [line?]
    cases (ofString text).ranges[n]? with
    | none => rfl
    | some range =>
      change ((slice? text range.1 range.2).bind fun line => some _) = _
      cases hs : slice? text range.1 range.2 <;> simp [hs]
  rw [hline, hslice]
  cases (pieces text.toList)[n]? <;> simp

/-- **Lines are looked up exactly.** A line is there exactly if the text has a piece of that number,
counted from one, and it is that piece without the carriage returns at its end. Every stored range
lies on boundaries of characters, and cutting it out of the text succeeds. -/
theorem lines_are_exact (text : String) :
    (∀ n, ((ofString text).line? n).isSome ↔ 1 ≤ n ∧ n ≤ (pieces text.toList).length) ∧
    (∀ n piece, (pieces text.toList)[n]? = some piece →
      ∃ line, (ofString text).line? (n + 1) = some line ∧ Quotes piece line) ∧
    ∀ range ∈ (ofString text).ranges,
      String.Pos.Raw.IsValid text ⟨range.1⟩ ∧ String.Pos.Raw.IsValid text ⟨range.2⟩ ∧
        (slice? text range.1 range.2).isSome := by
  refine ⟨fun n => ?_, fun n piece hpiece => ?_, fun range hrange => ?_⟩
  · cases n with
    | zero => simp [line?]
    | succ n =>
      rw [line?_ofString, Option.isSome_map, isSome_getElem?]
      exact ⟨fun h => ⟨Nat.le_add_left 1 n, h⟩, fun h => h.2⟩
  · refine ⟨String.ofList (trimReturns piece), ?_, quotes_trimReturns piece⟩
    rw [line?_ofString, hpiece, Option.map_some]
  · have hmem := List.mem_map_of_mem (f := fun r => slice? text r.1 r.2) hrange
    rw [slices_ofString] at hmem
    obtain ⟨piece, -, hslice⟩ := List.mem_map.mp hmem
    have hvalid := hslice
    rw [slice?] at hvalid
    split at hvalid
    next h => exact ⟨h.1, h.2.1, by rw [← hslice]; rfl⟩
    · cases hvalid

end Warden.SourceText
