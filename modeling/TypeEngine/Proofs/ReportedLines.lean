import TypeEngine.Diagnostic
import TypeEngine.Proofs.Offsets

/-!
# The line that a report shows

A location is turned into byte offsets, and the report reads these numbers as character offsets. The
two agree as long as each character before them is one byte wide. Otherwise the report points too
far, by as many characters as there are bytes too many, and that may be on a later line, or outside
the text.

**Where the location is.** The line of a location counts the line feeds among the characters within
the first `start` bytes (`count_take_bytes`); there are `charsWithin` of them.

**Where the report is.** The line that is shown counts the line feeds among the first `start`
characters, the last character of the text aside (`line_locate`).

Main result: `reported_line_iff`. The line shown is that of the location exactly if no line feed
stands between the two places and the location does not end beyond the last character.
-/

namespace TypeEngine

/-! ## Characters within some bytes -/

namespace Text

/-- The number of characters that lie within the first `n` bytes of a text. -/
def charsWithin : (n : Nat) → List Char → Nat
  | _, [] => 0
  | n, c :: cs => if c.utf8Size ≤ n then charsWithin (n - c.utf8Size) cs + 1 else 0

/-- The characters between the place of a byte offset and the place that a report shows for it. -/
def overshoot (text : String) (offset : Nat) : List Char :=
  (text.toList.take (min offset (text.length - 1))).drop (charsWithin offset text.toList)

variable {n : Nat} {cs : List Char}

theorem charsWithin_le (n : Nat) (cs : List Char) : charsWithin n cs ≤ n := by
  induction cs generalizing n with
  | nil => exact Nat.zero_le n
  | cons c cs ih =>
    rw [charsWithin]
    split_ifs with hc
    · have hpos := c.utf8Size_pos
      have hrest := ih (n - c.utf8Size)
      omega
    · exact Nat.zero_le n

theorem charsWithin_le_length (n : Nat) (cs : List Char) : charsWithin n cs ≤ cs.length := by
  induction cs generalizing n with
  | nil => exact Nat.zero_le 0
  | cons c cs ih =>
    rw [charsWithin, List.length_cons]
    split_ifs with hc
    · exact Nat.succ_le_succ (ih _)
    · exact Nat.zero_le _

theorem charsWithin_lt_length (h : n < (cs.flatMap String.utf8EncodeChar).length) :
    charsWithin n cs < cs.length := by
  induction cs generalizing n with
  | nil => simp at h
  | cons c cs ih =>
    rw [List.flatMap_cons, List.length_append, String.length_utf8EncodeChar] at h
    rw [charsWithin, List.length_cons]
    split_ifs with hc
    · have hrest := ih (n := n - c.utf8Size) (by omega)
      omega
    · omega

/-- Characters of one byte are as many as their bytes. -/
theorem charsWithin_eq (h : n ≤ (cs.flatMap String.utf8EncodeChar).length)
    (hwidth : ∀ c ∈ cs.take n, c.utf8Size = 1) : charsWithin n cs = n := by
  induction cs generalizing n with
  | nil =>
    have hn : n = 0 := by simpa using h
    rw [hn, charsWithin]
  | cons c cs ih =>
    cases n with
    | zero =>
      have hpos := c.utf8Size_pos
      rw [charsWithin, if_neg (by omega)]
    | succ n =>
      rw [List.take_succ_cons] at hwidth
      have hc : c.utf8Size = 1 := hwidth c List.mem_cons_self
      rw [List.flatMap_cons, List.length_append, String.length_utf8EncodeChar, hc] at h
      rw [charsWithin, hc, if_pos (by omega), Nat.add_sub_cancel,
        ih (by omega) fun d hd => hwidth d (List.mem_cons_of_mem c hd)]

theorem count_utf8EncodeChar (c : Char) :
    (String.utf8EncodeChar c).count lineFeed = if c == '\n' then 1 else 0 := by
  by_cases hc : c = '\n'
  · subst hc
    decide
  · rw [List.count_eq_zero_of_not_mem (lineFeed_notMem_utf8EncodeChar hc),
      if_neg (by simpa using hc)]

/-- The line feeds among the first bytes are those among the characters within them. -/
theorem count_take_bytes (n : Nat) (cs : List Char) :
    ((cs.flatMap String.utf8EncodeChar).take n).count lineFeed
      = (cs.take (charsWithin n cs)).count '\n' := by
  induction cs generalizing n with
  | nil => simp
  | cons c cs ih =>
    rw [List.flatMap_cons, charsWithin]
    by_cases hc : c.utf8Size ≤ n
    · rw [if_pos hc, List.take_append, String.length_utf8EncodeChar,
        List.take_of_length_le (by rwa [String.length_utf8EncodeChar]), List.count_append,
        count_utf8EncodeChar, ih, List.take_succ_cons, List.count_cons, Nat.add_comm]
    · -- the first character does not end within the bytes, so it is no line feed, or there are none
      have hlength : n ≤ (String.utf8EncodeChar c).length := by
        rw [String.length_utf8EncodeChar]
        omega
      rw [if_neg hc, List.take_append_of_le_length hlength, List.take_zero, List.count_nil]
      apply List.count_eq_zero_of_not_mem
      intro hmem
      by_cases hfeed : c = '\n'
      · subst hfeed
        have hn : n = 0 := by
          have : '\n'.utf8Size = 1 := by decide
          omega
        simp [hn] at hmem
      · exact lineFeed_notMem_utf8EncodeChar hfeed (List.mem_of_mem_take hmem)

variable {text : String} {offset : Nat}

/-- Both places have the same line feeds before them if none stands between the two. -/
theorem count_take_eq_iff (h : offset < text.utf8ByteSize) :
    (text.toList.take (min offset (text.length - 1))).count '\n'
        = (text.toList.take (charsWithin offset text.toList)).count '\n' ↔
      '\n' ∉ overshoot text offset := by
  have hlt : charsWithin offset text.toList < text.length := by
    rw [← String.length_toList]
    apply charsWithin_lt_length
    rwa [← bytes_eq_flatMap, length_bytes]
  have hle : charsWithin offset text.toList ≤ min offset (text.length - 1) := by
    have := charsWithin_le offset text.toList
    omega
  have hsplit : text.toList.take (min offset (text.length - 1))
      = text.toList.take (charsWithin offset text.toList) ++ overshoot text offset := by
    have hparts := List.take_append_drop (charsWithin offset text.toList)
      (text.toList.take (min offset (text.length - 1)))
    rw [List.take_take, Nat.min_eq_left hle] at hparts
    exact hparts.symm
  rw [hsplit, List.count_append, ← List.count_eq_zero]
  omega

theorem overshoot_eq_nil (h : charsWithin offset text.toList = offset) :
    overshoot text offset = [] := by
  rw [overshoot, h]
  apply List.drop_eq_nil_of_le
  rw [List.length_take]
  omega

end Text

/-! ## Lines of a report -/

section

variable {pending line offset : Nat} {c : Char} {cs : List Char}

theorem lineLengthsFrom_cons (h : isLineEnd c = true → c = '\n') :
    lineLengthsFrom pending (c :: cs)
      = if c = '\n' then (pending + 1) :: lineLengthsFrom 0 cs
        else lineLengthsFrom (pending + 1) cs := by
  have hreturn : c ≠ '\r' := by
    rintro rfl
    exact absurd (h (by decide)) (by decide)
  have hfeed : isLineEnd c = true ↔ c = '\n' := ⟨h, fun heq => heq ▸ by decide⟩
  rw [lineLengthsFrom]
  · simp only [hfeed]
  · intro cs' hc
    exact absurd hc hreturn

theorem lineLengthsFrom_ne_nil (h : ∀ c ∈ cs, isLineEnd c = true → c = '\n')
    (hne : 0 < pending ∨ cs ≠ []) : lineLengthsFrom pending cs ≠ [] := by
  induction cs generalizing pending with
  | nil =>
    have hpending : pending ≠ 0 := by simpa [Nat.pos_iff_ne_zero] using hne
    simp [lineLengthsFrom, hpending]
  | cons c cs ih =>
    rw [lineLengthsFrom_cons (h c List.mem_cons_self)]
    split_ifs
    · simp
    · exact ih (fun d hd => h d (List.mem_cons_of_mem c hd)) (.inl (Nat.succ_pos pending))

theorem locate_cons {length : Nat} {rest : List Nat} (h : rest ≠ []) :
    locate line (length :: rest) offset
      = if offset < length then (line, offset + 1)
        else locate (line + 1) rest (offset - length) := by
  cases rest with
  | nil => exact absurd rfl h
  | cons next rest => rfl

/-- The line of a character offset counts the line feeds before it, except one at the end of the
text. -/
theorem line_locate (h : ∀ c ∈ cs, isLineEnd c = true → c = '\n') :
    (locate line (lineLengthsFrom pending cs) offset).1
      = line + (cs.take (min (offset - pending) (cs.length - 1))).count '\n' := by
  induction cs generalizing pending line offset with
  | nil =>
    rw [lineLengthsFrom]
    split_ifs <;> simp [locate]
  | cons c cs ih =>
    have hcs : ∀ d ∈ cs, isLineEnd d = true → d = '\n' :=
      fun d hd => h d (List.mem_cons_of_mem c hd)
    rw [lineLengthsFrom_cons (h c List.mem_cons_self), List.length_cons, Nat.add_sub_cancel]
    by_cases hempty : cs = []
    · -- the last character: whatever it is, the offset is on its line
      subst hempty
      by_cases hc : c = '\n' <;> simp [hc, lineLengthsFrom, locate]
    have hlength : 0 < cs.length := List.length_pos_iff.2 hempty
    have hzero (hle : offset ≤ pending) : min (offset - pending) cs.length = 0 := by omega
    have hsucc (hlt : pending < offset) : min (offset - pending) cs.length
        = min (offset - (pending + 1)) (cs.length - 1) + 1 := by omega
    by_cases hc : c = '\n'
    · rw [if_pos hc, locate_cons (lineLengthsFrom_ne_nil hcs (.inr hempty))]
      by_cases hlt : pending < offset
      · rw [if_neg (by omega), ih hcs, Nat.sub_zero, hsucc hlt, List.take_succ_cons, hc,
          List.count_cons_self]
        omega
      · rw [if_pos (by omega), hzero (by omega)]
        simp
    · rw [if_neg hc, ih hcs]
      by_cases hlt : pending < offset
      · rw [hsucc hlt, List.take_succ_cons, List.count_cons_of_ne hc]
      · rw [hzero (by omega), Nat.sub_eq_zero_of_le (by omega), Nat.zero_min, List.take_zero,
          List.take_zero]

theorem lineLengths_eq {source : String} (h : ∀ c ∈ source.toList, isLineEnd c = true → c = '\n')
    (hne : source.toList ≠ []) : lineLengths source = lineLengthsFrom 0 source.toList := by
  have hlengths : lineLengthsFrom 0 source.toList ≠ [] := lineLengthsFrom_ne_nil h (.inr hne)
  rw [lineLengths]
  split
  · contradiction
  · rfl

end

/-! ## The report on a location -/

/-- The location reaches from the byte offset `start` of the text to the later offset `stop`. -/
structure Location.Covers (location : Location) (text : String) (start stop : UInt32) : Prop where
  start_inside : start.toNat ≤ text.utf8ByteSize
  stop_inside : stop.toNat ≤ text.utf8ByteSize
  start_eq : location.start = (LineIndex.ofText text).position start
  stop_eq : location.stop = (LineIndex.ofText text).position stop
  ordered : location.start.Before location.stop

section

variable {source : String} {e : TypeError} {location : Location} {start stop : UInt32}

theorem Location.Covers.lt (small : source.utf8ByteSize < 2 ^ 32 - 1)
    (h : location.Covers source start stop) : start.toNat < stop.toNat := by
  have hordered := h.ordered
  rw [h.start_eq, h.stop_eq, LineIndex.position_before_iff small h.start_inside h.stop_inside]
    at hordered
  exact UInt32.lt_iff_toNat_lt.1 hordered

/-- The span of such a location is that of its bytes, and needs no clamping. -/
theorem Location.Covers.span_eq (small : source.utf8ByteSize < 2 ^ 32 - 1)
    (h : location.Covers source start stop) :
    (Span.ofLocation (some location) source).clamp source.utf8ByteSize
      = ⟨start.toNat, stop.toNat⟩ := by
  have hlt := h.lt small
  have hstop := h.stop_inside
  have hprovided : location.isProvided = true := by
    have hline := LineIndex.line_position small h.start_inside
    rw [Location.isProvided, h.start_eq, decide_eq_true_eq, UInt32.lt_iff_toNat_lt, hline]
    exact Nat.succ_pos _
  simp only [Span.ofLocation, hprovided, ↓reduceIte, h.start_eq, h.stop_eq,
    LineIndex.offset_position small h.start_inside, LineIndex.offset_position small h.stop_inside]
  rw [Span.clamp]
  have hmin : min start.toNat source.utf8ByteSize = start.toNat := by omega
  have hmax : max (min stop.toNat source.utf8ByteSize) start.toNat = stop.toNat := by omega
  simp only [hmin, hmax, if_neg (Nat.ne_of_lt hlt)]

/-- The line that a report shows, if it shows any. -/
theorem Location.Covers.reported_line (small : source.utf8ByteSize < 2 ^ 32 - 1)
    (feeds : ∀ c ∈ source.toList, isLineEnd c = true → c = '\n')
    (located : e.location = some location) (h : location.Covers source start stop) :
    (Diagnostic.ofError e source).place.map Prod.fst
      = if stop.toNat ≤ source.length + 1 then
          some (1 + (source.toList.take (min start.toNat (source.length - 1))).count '\n')
        else
          none := by
  have hlt := h.lt small
  have hne : source.toList ≠ [] := by
    intro hnil
    have hsize := h.stop_inside
    rw [← Text.length_bytes, Text.bytes_eq_flatMap, hnil] at hsize
    simp at hsize
    omega
  have hline : (locate 1 (lineLengthsFrom 0 source.toList) start.toNat).1
      = 1 + (source.toList.take (min start.toNat (source.length - 1))).count '\n' := by
    rw [line_locate feeds, Nat.sub_zero, String.length_toList]
  rw [Diagnostic.ofError, located, h.span_eq small]
  simp only [lineLengths_eq feeds hne]
  by_cases hstop : stop.toNat ≤ source.length + 1
  · rw [if_pos hstop, if_neg (by simp; omega)]
    simpa using hline
  · rw [if_neg hstop, if_pos (by simp; omega)]
    rfl

/-- The line of the location. -/
theorem Location.Covers.line_eq (small : source.utf8ByteSize < 2 ^ 32 - 1)
    (h : location.Covers source start stop) :
    location.start.line.toNat
      = 1 + (source.toList.take (Text.charsWithin start.toNat source.toList)).count '\n' := by
  rw [h.start_eq, LineIndex.line_position small h.start_inside, Text.bytes_eq_flatMap,
    Text.count_take_bytes, Nat.add_comm]

end

/-- **A report shows the line of its location exactly if no line feed stands between the place of
the location and the place that the report shows.** The bytes before the location are counted as
characters, so the two places differ where characters before it are wider than one byte; then the
report may show a later line, or, if the location ends beyond the last character, none at all. Where
every character up to the end of the location is one byte wide, the line is right. -/
theorem reported_line_iff {source : String} (small : source.utf8ByteSize < 2 ^ 32 - 1)
    (feeds : ∀ c ∈ source.toList, isLineEnd c = true → c = '\n') {e : TypeError}
    {location : Location} (located : e.location = some location) {start stop : UInt32}
    (covers : location.Covers source start stop) :
    (Diagnostic.ofError e source).place.map Prod.fst
        = (if stop.toNat ≤ source.length + 1 then
            some (1 + (source.toList.take (min start.toNat (source.length - 1))).count '\n')
          else none) ∧
      ((Diagnostic.ofError e source).place.map Prod.fst = some location.start.line.toNat ↔
        stop.toNat ≤ source.length + 1 ∧ '\n' ∉ Text.overshoot source start.toNat) ∧
      ((∀ c ∈ source.toList.take stop.toNat, c.utf8Size = 1) →
        (Diagnostic.ofError e source).place.map Prod.fst = some location.start.line.toNat) := by
  have hreport := covers.reported_line small feeds located
  have hlt := covers.lt small
  have hinside : start.toNat < source.utf8ByteSize := Nat.lt_of_lt_of_le hlt covers.stop_inside
  have hiff : (Diagnostic.ofError e source).place.map Prod.fst = some location.start.line.toNat ↔
      stop.toNat ≤ source.length + 1 ∧ '\n' ∉ Text.overshoot source start.toNat := by
    rw [hreport, covers.line_eq small, ← Text.count_take_eq_iff hinside]
    split_ifs with hstop
    · simp [hstop]
    · simp [hstop]
  refine ⟨hreport, hiff, fun hwidth => hiff.2 ?_⟩
  have hwithin (n : Nat) (hn : n ≤ stop.toNat) : Text.charsWithin n source.toList = n := by
    apply Text.charsWithin_eq
    · rw [← Text.bytes_eq_flatMap, Text.length_bytes]
      exact Nat.le_trans hn covers.stop_inside
    · intro c hc
      exact hwidth c ((List.take_subset_take_left source.toList hn) hc)
  have hstop : stop.toNat ≤ source.length := by
    rw [← hwithin stop.toNat (Nat.le_refl _), ← String.length_toList]
    exact Text.charsWithin_le_length _ _
  rw [Text.overshoot_eq_nil (hwithin start.toNat (Nat.le_of_lt hlt))]
  exact ⟨Nat.le_succ_of_le hstop, List.not_mem_nil⟩

/-- In front of the second line stand three characters of two bytes: the report shows the third. -/
theorem reported_line_iff_umlauts :
    "äöü\na\nbcd".utf8ByteSize < 2 ^ 32 - 1 ∧
      (⟨"", ⟨2, 1⟩, ⟨2, 2⟩⟩ : Location).Covers "äöü\na\nbcd" 7 8 ∧
      Text.overshoot "äöü\na\nbcd" 7 = ['a', '\n', 'b'] ∧
      (Diagnostic.ofError (.atLocation .typeNotFound ⟨"", ⟨2, 1⟩, ⟨2, 2⟩⟩) "äöü\na\nbcd").place.map
        Prod.fst = some 3 := by
  have small : "äöü\na\nbcd".utf8ByteSize < 2 ^ 32 - 1 := by decide
  have covers : (⟨"", ⟨2, 1⟩, ⟨2, 2⟩⟩ : Location).Covers "äöü\na\nbcd" 7 8 :=
    ⟨by decide, by decide, by decide, by decide, by decide⟩
  have feeds : ∀ c ∈ "äöü\na\nbcd".toList, isLineEnd c = true → c = '\n' := by
    simp [isLineEnd]
  refine ⟨small, covers, by decide, ?_⟩
  rw [(reported_line_iff small feeds rfl covers).1]
  decide

end TypeEngine
