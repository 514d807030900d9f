import Mathlib.Algebra.Group.Nat.Defs
import Mathlib.Tactic.SplitIfs
import TypeEngine.LineIndex

/-!
# Offsets and positions

A position of a text is a byte offset in another form: the line counts the line feeds before the
offset, and the column counts the bytes since the last of them. `LineIndex.position` and
`LineIndex.offset` convert between the two forms by looking up line starts in 32-bit arithmetic.

**Line starts.** `startsFrom` lists them for a list of bytes. It sends an appended list to an
appended list (`startsFrom_append`), and the starts up to an offset are those of the bytes before it
(`takeWhile_startsFrom`). No byte of another character is a line feed, so the starts that the index
reads off the characters are these (`startsAfter_eq`).

**Arithmetic.** `LineIndex.position?` and `LineIndex.offset?` make the same computations in exact
arithmetic and have no answer where a number needs more than 32 bits.

Main result: `positions_invert_offsets`, for texts of less than `2 ^ 32 - 1` bytes.
-/

namespace TypeEngine

namespace Position

/-- The strict part of the order of positions. -/
def Before (p q : Position) : Prop :=
  p.le q = true ∧ p ≠ q

instance (p q : Position) : Decidable (p.Before q) :=
  inferInstanceAs (Decidable (_ ∧ _))

variable {p q : Position}

theorem ext_toNat (hline : p.line.toNat = q.line.toNat)
    (hcolumn : p.column.toNat = q.column.toNat) : p = q := by
  cases p
  cases q
  simp only [Position.mk.injEq]
  exact ⟨UInt32.toNat_inj.1 hline, UInt32.toNat_inj.1 hcolumn⟩

/-- Earlier line, or the same line and an earlier column. -/
theorem before_iff :
    p.Before q ↔ p.line.toNat < q.line.toNat ∨
      p.line.toNat = q.line.toNat ∧ p.column.toNat < q.column.toNat := by
  have heq : p = q ↔ p.line.toNat = q.line.toNat ∧ p.column.toNat = q.column.toNat :=
    ⟨fun h => h ▸ ⟨rfl, rfl⟩, fun h => ext_toNat h.1 h.2⟩
  rw [Before, Ne, heq, le]
  simp only [Bool.or_eq_true, Bool.and_eq_true, decide_eq_true_eq, beq_iff_eq,
    UInt32.lt_iff_toNat_lt, UInt32.le_iff_toNat_le, ← UInt32.toNat_inj]
  omega

end Position

/-! ## Bytes of a text -/

namespace Text

/-- The byte of a line feed. -/
def lineFeed : UInt8 := 10

/-- The UTF-8 form of a text. -/
def bytes (text : String) : List UInt8 :=
  text.toByteArray.data.toList

/-- The lines of a text in bytes, without their line feeds. -/
def byteLines (text : String) : List (List UInt8) :=
  (bytes text).splitOn lineFeed

/-- The columns of a line, counted from one: one for each byte, and one for the line feed, or on the
last line for the end of the text. -/
def columns (text : String) (line : Nat) : Nat :=
  ((byteLines text).getD (line - 1) []).length + 1

/-- The offset just after the last line feed among the first `offset` bytes, or zero. -/
def lineStart (bytes : List UInt8) : (offset : Nat) → Nat
  | 0 => 0
  | offset + 1 => if bytes[offset]? = some lineFeed then offset + 1 else lineStart bytes offset

theorem bytes_eq_flatMap (text : String) :
    bytes text = text.toList.flatMap String.utf8EncodeChar := by
  rw [bytes, ← String.utf8Encode_toList]
  exact List.toList_data_toByteArray

theorem length_bytes (text : String) : (bytes text).length = text.utf8ByteSize :=
  rfl

theorem lineFeed_notMem_utf8EncodeChar {c : Char} (h : c ≠ '\n') :
    lineFeed ∉ String.utf8EncodeChar c := by
  have hval : c.val.toNat ≠ 10 := by
    intro heq
    apply h
    apply Char.ext
    exact UInt32.toNat_inj.1 heq
  have hbyte {n : Nat} (hn : n < 256) (hne : n ≠ 10) : lineFeed ≠ UInt8.ofNat n := by
    intro heq
    apply hne
    have htoNat := congrArg UInt8.toNat heq
    rw [UInt8.toNat_ofNat_of_lt' hn] at htoNat
    exact htoNat.symm
  unfold String.utf8EncodeChar
  dsimp only
  split_ifs with h₁ h₂ h₃
  · simpa using hbyte (by omega) hval
  · simp only [List.mem_cons, List.not_mem_nil, or_false, not_or]
    exact ⟨hbyte (by omega) (by omega), hbyte (by omega) (by omega)⟩
  · simp only [List.mem_cons, List.not_mem_nil, or_false, not_or]
    exact ⟨hbyte (by omega) (by omega), hbyte (by omega) (by omega), hbyte (by omega) (by omega)⟩
  · simp only [List.mem_cons, List.not_mem_nil, or_false, not_or]
    exact ⟨hbyte (by omega) (by omega), hbyte (by omega) (by omega), hbyte (by omega) (by omega),
      hbyte (by omega) (by omega)⟩

theorem utf8EncodeChar_lineFeed : String.utf8EncodeChar '\n' = [lineFeed] := by
  decide

theorem lineStart_le (bytes : List UInt8) (offset : Nat) : lineStart bytes offset ≤ offset := by
  induction offset with
  | zero => exact Nat.le_refl 0
  | succ offset ih =>
    rw [lineStart]
    split_ifs <;> omega

/-! ## Line starts -/

/-- The offsets just after each line feed, for bytes that begin at `offset`. -/
def startsFrom (offset : Nat) : List UInt8 → List Nat
  | [] => []
  | b :: bs =>
    if b = lineFeed then (offset + 1) :: startsFrom (offset + 1) bs else startsFrom (offset + 1) bs

theorem startsFrom_append (offset : Nat) (as bs : List UInt8) :
    startsFrom offset (as ++ bs) = startsFrom offset as ++ startsFrom (offset + as.length) bs := by
  induction as generalizing offset with
  | nil => simp [startsFrom]
  | cons a as ih =>
    have hlength : offset + (a :: as).length = offset + 1 + as.length := by
      simp only [List.length_cons]
      omega
    rw [List.cons_append, startsFrom, startsFrom, ih, hlength]
    split_ifs <;> simp

theorem startsFrom_eq_nil {offset : Nat} {bs : List UInt8} (h : lineFeed ∉ bs) :
    startsFrom offset bs = [] := by
  induction bs generalizing offset with
  | nil => rfl
  | cons b bs ih =>
    simp only [List.mem_cons, not_or] at h
    rw [startsFrom, if_neg (Ne.symm h.1), ih h.2]

theorem length_startsFrom (offset : Nat) (bs : List UInt8) :
    (startsFrom offset bs).length = bs.count lineFeed := by
  induction bs generalizing offset with
  | nil => rfl
  | cons b bs ih =>
    rw [startsFrom, List.count_cons]
    by_cases hb : b = lineFeed <;> simp [hb, ih]

theorem le_of_mem_startsFrom {offset start : Nat} {bs : List UInt8}
    (h : start ∈ startsFrom offset bs) : start ≤ offset + bs.length := by
  induction bs generalizing offset with
  | nil => simp [startsFrom] at h
  | cons b bs ih =>
    have hrest (hmem : start ∈ startsFrom (offset + 1) bs) : start ≤ offset + (b :: bs).length := by
      have := ih hmem
      simp only [List.length_cons]
      omega
    rw [startsFrom] at h
    split_ifs at h with hb
    · rcases List.mem_cons.1 h with rfl | hmem
      · simp
      · exact hrest hmem
    · exact hrest h

/-- The starts up to an offset are those of the bytes before it. -/
theorem takeWhile_startsFrom (offset last : Nat) (bs : List UInt8) :
    (startsFrom offset bs).takeWhile (· ≤ last) = startsFrom offset (bs.take (last - offset)) := by
  induction bs generalizing offset with
  | nil => simp [startsFrom]
  | cons b bs ih =>
    by_cases hlast : offset + 1 ≤ last
    · have hsub : last - offset = last - (offset + 1) + 1 := by omega
      rw [hsub, List.take_succ_cons, startsFrom, startsFrom]
      split_ifs <;> simp [hlast, ih]
    · have hsub : last - offset = 0 := by omega
      have hsub' : last - (offset + 1) = 0 := by omega
      simp only [hsub, List.take_zero, startsFrom]
      split_ifs
      · simp [hlast]
      · rw [ih, hsub', List.take_zero, startsFrom]

theorem getLastD_startsFrom (bs : List UInt8) (offset : Nat) :
    (startsFrom 0 (bs.take offset)).getLastD 0 = lineStart bs offset := by
  induction offset with
  | zero => rfl
  | succ offset ih =>
    rw [List.take_add_one, startsFrom_append, lineStart]
    cases hb : bs[offset]? with
    | none => simpa [startsFrom] using ih
    | some b =>
      have hlt : offset < bs.length := (List.getElem?_eq_some_iff.1 hb).1
      have hlength : (bs.take offset).length = offset := by
        rw [List.length_take]
        omega
      by_cases hfeed : b = lineFeed
      · simp [hfeed, startsFrom, hlength]
      · simpa [hfeed, startsFrom] using ih

/-- A later offset has more line feeds before it, or lies on the same line. -/
theorem count_take_lt_or (bs : List UInt8) {i j : Nat} (h : i ≤ j) :
    (bs.take i).count lineFeed < (bs.take j).count lineFeed ∨
      (bs.take i).count lineFeed = (bs.take j).count lineFeed ∧
        lineStart bs i = lineStart bs j := by
  induction h with
  | refl => exact .inr ⟨rfl, rfl⟩
  | @step j _ ih =>
    rw [List.take_add_one, List.count_append, lineStart]
    by_cases hb : bs[j]? = some lineFeed
    · left
      simp only [hb, Option.toList_some, List.count_singleton_self]
      omega
    · have hcount : bs[j]?.toList.count lineFeed = 0 := by
        apply List.count_eq_zero_of_not_mem
        intro hmem
        exact hb (Option.mem_toList.1 hmem)
      rwa [hcount, Nat.add_zero, if_neg hb]

/-! ## Lines -/

theorem length_splitOn_lineFeed (bs : List UInt8) :
    (bs.splitOn lineFeed).length = bs.count lineFeed + 1 := by
  induction bs with
  | nil => rfl
  | cons b bs ih =>
    rw [List.splitOn_eq_splitOnP] at ih ⊢
    rw [List.splitOnP_cons_eq_if_modifyHead, List.count_cons]
    by_cases hb : b = lineFeed <;> simp [hb, ih]

/-- The bytes of a line stand after those of the lines before it, which end in a line feed. -/
theorem exists_before_line {bs line : List UInt8} {n : Nat}
    (h : (bs.splitOn lineFeed)[n]? = some line) :
    ∃ before after, bs = before ++ line ++ after ∧ before.count lineFeed = n ∧ lineFeed ∉ line ∧
      (before = [] ∨ ∃ rest, before = rest ++ [lineFeed]) := by
  induction bs generalizing n line with
  | nil =>
    rw [List.splitOn_nil] at h
    obtain ⟨hn, rfl⟩ := List.getElem?_eq_some_iff.1 h
    have hn : n = 0 := by simpa using hn
    subst hn
    exact ⟨[], [], by simp⟩
  | cons b bs ih =>
    rw [List.splitOn_eq_splitOnP, List.splitOnP_cons_eq_if_modifyHead] at h
    rw [List.splitOn_eq_splitOnP] at ih
    by_cases hb : b = lineFeed
    · rw [if_pos (by simpa using hb)] at h
      cases n with
      | zero =>
        obtain rfl : [] = line := by simpa using h
        exact ⟨[], b :: bs, by simp⟩
      | succ n =>
        obtain ⟨before, after, hbs, hcount, hline, hlast⟩ := ih h
        refine ⟨b :: before, after, by rw [hbs]; rfl, by simp [hb, hcount], hline, .inr ?_⟩
        rcases hlast with rfl | ⟨rest, rfl⟩
        · exact ⟨[], by simp [hb]⟩
        · exact ⟨b :: rest, rfl⟩
    · rw [if_neg (by simpa using hb), List.getElem?_modifyHead] at h
      cases n with
      | zero =>
        obtain ⟨line, hget, rfl⟩ := Option.map_eq_some_iff.1 h
        obtain ⟨before, after, hbs, hcount, hline, hlast⟩ := ih hget
        -- nothing stands before the first line
        have hbefore : before = [] := by
          rcases hlast with rfl | ⟨rest, rfl⟩
          · rfl
          · simp at hcount
        subst hbefore
        exact ⟨[], after, by rw [hbs]; simp, rfl, by simp [Ne.symm hb, hline], .inl rfl⟩
      | succ n =>
        obtain ⟨before, after, hbs, hcount, hline, hlast⟩ := ih h
        refine ⟨b :: before, after, by rw [hbs]; rfl, by simp [hb, hcount], hline, .inr ?_⟩
        rcases hlast with rfl | ⟨rest, rfl⟩
        · simp at hcount
        · exact ⟨b :: rest, rfl⟩

/-- On a line without line feeds the start of the line stays the same. -/
theorem lineStart_add {before line after : List UInt8} {column : Nat} (hline : lineFeed ∉ line)
    (hlast : before = [] ∨ ∃ rest, before = rest ++ [lineFeed]) (hcolumn : column ≤ line.length) :
    lineStart (before ++ line ++ after) (before.length + column) = before.length := by
  induction column with
  | zero =>
    rcases hlast with rfl | ⟨rest, rfl⟩
    · rfl
    · simp [lineStart]
  | succ column ih =>
    have hne : (before ++ line ++ after)[before.length + column]? ≠ some lineFeed := by
      rw [List.append_assoc, List.getElem?_append_right (by omega), Nat.add_sub_cancel_left,
        List.getElem?_append_left (by omega)]
      intro heq
      exact hline (List.mem_of_getElem? heq)
    rw [← Nat.add_assoc, lineStart, if_neg hne]
    exact ih (by omega)

/-- Each column of each line is an offset. -/
theorem exists_offset {bs line : List UInt8} {n column : Nat}
    (h : (bs.splitOn lineFeed)[n]? = some line) (hcolumn : column ≤ line.length) :
    ∃ offset ≤ bs.length,
      (bs.take offset).count lineFeed = n ∧ offset = lineStart bs offset + column := by
  obtain ⟨before, after, rfl, hcount, hline, hlast⟩ := exists_before_line h
  have hzero : (line.take column).count lineFeed = 0 := by
    apply List.count_eq_zero_of_not_mem
    intro hmem
    exact hline (List.mem_of_mem_take hmem)
  refine ⟨before.length + column, by simp; omega, ?_, ?_⟩
  · rw [List.append_assoc, List.take_length_add_append, List.take_append_of_le_length hcolumn,
      List.count_append, hcount, hzero, Nat.add_zero]
  · rw [lineStart_add hline hlast hcolumn]

theorem takeWhile_congr_mem {α : Type} {p q : α → Bool} {l : List α} (h : ∀ a ∈ l, p a = q a) :
    l.takeWhile p = l.takeWhile q := by
  induction l with
  | nil => rfl
  | cons a l ih =>
    have ha := h a List.mem_cons_self
    have hl := ih fun b hb => h b (List.mem_cons_of_mem a hb)
    rw [List.takeWhile_cons, List.takeWhile_cons, ha, hl]

end Text

open Text

theorem LineIndex.startsAfter_eq (offset : Nat) (cs : List Char) :
    startsAfter offset cs = startsFrom offset (cs.flatMap String.utf8EncodeChar) := by
  induction cs generalizing offset with
  | nil => rfl
  | cons c cs ih =>
    rw [List.flatMap_cons, startsFrom_append, String.length_utf8EncodeChar, startsAfter, ih]
    by_cases hc : c = '\n'
    · subst hc
      rw [if_pos rfl, utf8EncodeChar_lineFeed]
      rfl
    · rw [if_neg hc, startsFrom_eq_nil (lineFeed_notMem_utf8EncodeChar hc), List.nil_append]

/-! ## Exact arithmetic -/

/-- A number as a 32-bit word, if it fits. -/
def word? (n : Nat) : Option UInt32 :=
  if n < 2 ^ 32 then some n.toUInt32 else none

/-- The exact sum, if it fits. -/
def add? (a b : UInt32) : Option UInt32 :=
  word? (a.toNat + b.toNat)

/-- The exact difference, if it is not negative. -/
def sub? (a b : UInt32) : Option UInt32 :=
  if b.toNat ≤ a.toNat then word? (a.toNat - b.toNat) else none

theorem word?_eq {n : Nat} (h : n < 2 ^ 32) : word? n = some n.toUInt32 :=
  if_pos h

theorem mapM_word? {l : List Nat} (h : ∀ n ∈ l, n < 2 ^ 32) :
    l.mapM word? = some (l.map Nat.toUInt32) := by
  induction l with
  | nil => rfl
  | cons n l ih =>
    have hl := ih fun m hm => h m (List.mem_cons_of_mem n hm)
    rw [List.mapM_cons, word?_eq (h n List.mem_cons_self), hl]
    rfl

theorem toNat_toUInt32 {n : Nat} (h : n < 2 ^ 32) : n.toUInt32.toNat = n :=
  UInt32.toNat_ofNat_of_lt' h

theorem add?_eq {a b : UInt32} (h : a.toNat + b.toNat < 2 ^ 32) : add? a b = some (a + b) := by
  rw [add?, word?_eq h]
  simp

theorem sub?_eq {a b : UInt32} (h : b ≤ a) : sub? a b = some (a - b) := by
  have hle := UInt32.le_iff_toNat_le.1 h
  have hlt := a.toNat_lt
  rw [sub?, if_pos hle, word?_eq (by omega), ← UInt32.toNat_sub_of_le _ _ h]
  simp

theorem eq_of_word? {n : Nat} {a : UInt32} (h : word? n = some a) : n.toUInt32 = a := by
  rw [word?] at h
  split_ifs at h
  exact Option.some.inj h

theorem eq_of_add? {a b c : UInt32} (h : add? a b = some c) : a + b = c := by
  simpa using eq_of_word? h

namespace LineIndex

/-- The index of a text, if its offsets fit into 32 bits. -/
def ofText? (text : String) : Option LineIndex := do
  let starts ← (0 :: startsAfter 0 text.toList).mapM word?
  let length ← word? text.utf8ByteSize
  return ⟨starts, length⟩

/-- `position` in exact arithmetic. -/
def position? (index : LineIndex) (offset : UInt32) : Option Position := do
  let before := index.lineStarts.takeWhile (· ≤ offset)
  let line ← add? (← word? (before.length - 1)) 1
  let column ← add? (← sub? offset (before.getLastD 0)) 1
  return ⟨line, column⟩

/-- `offset` in exact arithmetic. -/
def offset? (index : LineIndex) (position : Position) : Option UInt32 :=
  if position.line = 0 then
    some 0
  else
    match index.lineStarts[position.line.toNat - 1]? with
    | none => some index.length
    | some start =>
      let column := if position.column = 0 then 0 else position.column - 1
      (add? start column).map (min · index.length)

/-- Where exact arithmetic has an answer, 32-bit arithmetic gives the same one. -/
theorem offset_eq_of_offset? {index : LineIndex} {p : Position} {offset : UInt32}
    (h : index.offset? p = some offset) : index.offset p = offset := by
  rw [offset?] at h
  rw [LineIndex.offset]
  by_cases hline : p.line = 0
  · rw [if_pos hline] at h ⊢
    exact Option.some.inj h
  · rw [if_neg hline] at h ⊢
    cases hstart : index.lineStarts[p.line.toNat - 1]? with
    | none => simpa [hstart] using h
    | some start =>
      simp only [hstart, Option.map_eq_some_iff] at h ⊢
      obtain ⟨sum, hsum, hmin⟩ := h
      rw [eq_of_add? hsum, hmin]

/-! ## The position of an offset -/

theorem lineStarts_ofText (text : String) :
    (ofText text).lineStarts = (0 :: startsFrom 0 (bytes text)).map Nat.toUInt32 := by
  rw [ofText, startsAfter_eq, bytes_eq_flatMap]

theorem lineCount_ofText (text : String) :
    (ofText text).lineCount = (bytes text).count lineFeed + 1 := by
  rw [lineCount, lineStarts_ofText, List.length_map, List.length_cons, length_startsFrom]

variable {text : String} {offset : UInt32}

theorem start_lt_of_mem (small : text.utf8ByteSize < 2 ^ 32) {start : Nat}
    (hmem : start ∈ 0 :: startsFrom 0 (bytes text)) : start < 2 ^ 32 := by
  rcases List.mem_cons.1 hmem with rfl | hmem
  · decide
  · have := le_of_mem_startsFrom hmem
    rw [length_bytes] at this
    omega

theorem takeWhile_lineStarts (small : text.utf8ByteSize < 2 ^ 32) (offset : UInt32) :
    (ofText text).lineStarts.takeWhile (· ≤ offset)
      = (0 :: startsFrom 0 ((bytes text).take offset.toNat)).map Nat.toUInt32 := by
  have hword (start : Nat) (hmem : start ∈ 0 :: startsFrom 0 (bytes text)) :
      ((· ≤ offset : UInt32 → Bool) ∘ Nat.toUInt32) start = decide (start ≤ offset.toNat) := by
    apply decide_eq_decide.2
    rw [UInt32.le_iff_toNat_le, toNat_toUInt32 (start_lt_of_mem small hmem)]
  rw [lineStarts_ofText, List.takeWhile_map, takeWhile_congr_mem hword,
    List.takeWhile_cons_of_pos (by simp), takeWhile_startsFrom, Nat.sub_zero]

theorem count_take_le (bs : List UInt8) (n : Nat) : (bs.take n).count lineFeed ≤ n :=
  Nat.le_trans List.count_le_length (List.length_take_le n bs)

/-- What `position` computes, with the starts looked up. -/
theorem position_ofText (small : text.utf8ByteSize < 2 ^ 32) (offset : UInt32) :
    (ofText text).position offset
      = ⟨(((bytes text).take offset.toNat).count lineFeed).toUInt32 + 1,
          offset - (lineStart (bytes text) offset.toNat).toUInt32 + 1⟩ := by
  rw [position, takeWhile_lineStarts small, ← getLastD_startsFrom, ← length_startsFrom 0,
    List.map_cons, List.getLastD_cons, List.getLastD_map]
  simp

section

variable (small : text.utf8ByteSize < 2 ^ 32 - 1) (inside : offset.toNat ≤ text.utf8ByteSize)
include small inside

theorem line_position :
    ((ofText text).position offset).line.toNat
      = ((bytes text).take offset.toNat).count lineFeed + 1 := by
  have hcount := count_take_le (bytes text) offset.toNat
  rw [position_ofText (by omega)]
  simp only [UInt32.toNat_add, UInt32.toNat_one]
  rw [toNat_toUInt32 (by omega), Nat.mod_eq_of_lt (by omega)]

theorem lineStart_word_le : (lineStart (bytes text) offset.toNat).toUInt32 ≤ offset := by
  have hle := lineStart_le (bytes text) offset.toNat
  rw [UInt32.le_iff_toNat_le, toNat_toUInt32 (by omega)]
  exact hle

theorem column_position :
    ((ofText text).position offset).column.toNat
      = offset.toNat - lineStart (bytes text) offset.toNat + 1 := by
  have hle := lineStart_le (bytes text) offset.toNat
  rw [position_ofText (by omega)]
  simp only [UInt32.toNat_add, UInt32.toNat_one]
  rw [UInt32.toNat_sub_of_le _ _ (lineStart_word_le small inside),
    toNat_toUInt32 (by omega), Nat.mod_eq_of_lt (by omega)]

theorem position?_eq :
    (ofText text).position? offset = some ((ofText text).position offset) := by
  have hcount := count_take_le (bytes text) offset.toNat
  have hle := lineStart_le (bytes text) offset.toNat
  have hstart := lineStart_word_le small inside
  have hdiff := UInt32.toNat_sub_of_le _ _ hstart
  have hline := toNat_toUInt32 (n := ((bytes text).take offset.toNat).count lineFeed) (by omega)
  rw [position_ofText (by omega), position?, takeWhile_lineStarts (by omega), List.map_cons,
    List.getLastD_cons, List.getLastD_map, getLastD_startsFrom, List.length_cons, List.length_map,
    length_startsFrom, Nat.add_sub_cancel, word?_eq (by omega), sub?_eq hstart]
  simp only [Option.bind_eq_bind, Option.bind_some]
  rw [add?_eq (by simp [hline]; omega), add?_eq (by simp [hdiff]; omega)]
  rfl

/-- The line start that the position of an offset refers to. -/
theorem lineStarts_getElem? :
    (ofText text).lineStarts[((ofText text).position offset).line.toNat - 1]?
      = some (lineStart (bytes text) offset.toNat).toUInt32 := by
  have hbefore := takeWhile_lineStarts (Nat.lt_of_lt_of_le small (Nat.sub_le _ _)) offset
  have hlength : ((ofText text).lineStarts.takeWhile (· ≤ offset)).length
      = ((bytes text).take offset.toNat).count lineFeed + 1 := by
    rw [hbefore, List.length_map, List.length_cons, length_startsFrom]
  rw [line_position small inside, Nat.add_sub_cancel,
    ← List.takeWhile_append_dropWhile (p := (· ≤ offset)) (l := (ofText text).lineStarts),
    List.getElem?_append_left (by omega)]
  have hlast : ((ofText text).lineStarts.takeWhile (· ≤ offset)).getLast?
      = some (lineStart (bytes text) offset.toNat).toUInt32 := by
    rw [hbefore, List.map_cons, List.getLast?_cons, ← List.getLastD_eq_getLast?, List.getLastD_map,
      getLastD_startsFrom]
  rw [← hlast, List.getLast?_eq_getElem?, hlength, Nat.add_sub_cancel]

theorem offset?_position :
    (ofText text).offset? ((ofText text).position offset) = some offset := by
  have hline := line_position small inside
  have hcolumn := column_position small inside
  have hle := lineStart_le (bytes text) offset.toNat
  have hstart := toNat_toUInt32 (n := lineStart (bytes text) offset.toNat) (by omega)
  have hlength : (ofText text).length.toNat = text.utf8ByteSize := toNat_toUInt32 (by omega)
  rw [offset?, lineStarts_getElem? small inside]
  generalize (ofText text).position offset = p at hline hcolumn ⊢
  have hline₀ : p.line ≠ 0 := by
    intro h
    rw [h] at hline
    simp at hline
  have hcolumn₁ : 1 ≤ p.column := by
    rw [UInt32.le_iff_toNat_le, hcolumn]
    simp
  have hcolumn₀ : p.column ≠ 0 := by
    intro h
    rw [h] at hcolumn
    simp at hcolumn
  have hsub := UInt32.toNat_sub_of_le _ _ hcolumn₁
  have hoffset : (lineStart (bytes text) offset.toNat).toUInt32 + (p.column - 1) = offset := by
    apply UInt32.toNat_inj.1
    rw [UInt32.toNat_add, hstart, hsub, hcolumn, UInt32.toNat_one, Nat.mod_eq_of_lt (by omega)]
    omega
  have hmin : min offset (ofText text).length = offset := by
    apply if_pos
    rw [UInt32.le_iff_toNat_le, hlength]
    exact inside
  have hadd : add? (lineStart (bytes text) offset.toNat).toUInt32 (p.column - 1) = some offset := by
    rw [add?_eq (by rw [hsub, hstart, hcolumn, UInt32.toNat_one]; omega), hoffset]
  simp only [if_neg hline₀, if_neg hcolumn₀, hadd, Option.map_some, hmin]

theorem offset_position :
    (ofText text).offset ((ofText text).position offset) = offset :=
  offset_eq_of_offset? (offset?_position small inside)

end

/-! ## Order -/

/-- A later offset has a later position. -/
theorem position_before (small : text.utf8ByteSize < 2 ^ 32 - 1) {i j : UInt32} (h : i < j)
    (inside : j.toNat ≤ text.utf8ByteSize) :
    ((ofText text).position i).Before ((ofText text).position j) := by
  have hlt := UInt32.lt_iff_toNat_lt.1 h
  have hi : i.toNat ≤ text.utf8ByteSize := by omega
  have hstart := lineStart_le (bytes text) i.toNat
  rw [Position.before_iff, line_position small hi, line_position small inside,
    column_position small hi, column_position small inside]
  rcases count_take_lt_or (bytes text) (Nat.le_of_lt hlt) with hcount | ⟨hcount, hsame⟩ <;> omega

theorem position_before_iff (small : text.utf8ByteSize < 2 ^ 32 - 1) {i j : UInt32}
    (hi : i.toNat ≤ text.utf8ByteSize) (hj : j.toNat ≤ text.utf8ByteSize) :
    ((ofText text).position i).Before ((ofText text).position j) ↔ i < j := by
  refine ⟨fun h => ?_, fun h => position_before small h hj⟩
  rcases Nat.lt_trichotomy i.toNat j.toNat with hlt | heq | hgt
  · exact UInt32.lt_iff_toNat_lt.2 hlt
  · rw [UInt32.toNat_inj.1 heq, Position.before_iff] at h
    omega
  · have h' := position_before small (UInt32.lt_iff_toNat_lt.2 hgt) hi
    rw [Position.before_iff] at h h'
    omega

/-! ## The offset of a position -/

theorem ofText?_eq (small : text.utf8ByteSize < 2 ^ 32) : ofText? text = some (ofText text) := by
  have hstarts : (0 :: startsAfter 0 text.toList).mapM word?
      = some ((0 :: startsAfter 0 text.toList).map Nat.toUInt32) := by
    apply mapM_word?
    intro start hmem
    rw [startsAfter_eq, ← bytes_eq_flatMap] at hmem
    exact start_lt_of_mem small hmem
  rw [ofText?, hstarts, word?_eq small]
  rfl

/-- Each position of a line is that of an offset. -/
theorem exists_position_eq (small : text.utf8ByteSize < 2 ^ 32 - 1) {p : Position}
    (hline : 1 ≤ p.line.toNat) (hcount : p.line.toNat ≤ (ofText text).lineCount)
    (hcolumn : 1 ≤ p.column.toNat) (hwidth : p.column.toNat ≤ columns text p.line.toNat) :
    ∃ offset : UInt32, offset.toNat ≤ text.utf8ByteSize ∧ (ofText text).position offset = p := by
  have hlt : p.line.toNat - 1 < (byteLines text).length := by
    rw [byteLines, length_splitOn_lineFeed, ← lineCount_ofText]
    omega
  have hget : (byteLines text)[p.line.toNat - 1]? = some (byteLines text)[p.line.toNat - 1] :=
    List.getElem?_eq_getElem hlt
  rw [columns, List.getD_eq_getElem?_getD, hget, Option.getD_some] at hwidth
  have hcolumn' : p.column.toNat - 1 ≤ (byteLines text)[p.line.toNat - 1].length := by omega
  obtain ⟨offset, hoffset, hfeeds, hstart⟩ := exists_offset hget hcolumn'
  rw [length_bytes] at hoffset
  have hword : offset.toUInt32.toNat = offset := toNat_toUInt32 (by omega)
  have hinside : offset.toUInt32.toNat ≤ text.utf8ByteSize := by omega
  refine ⟨offset.toUInt32, hinside, ?_⟩
  apply Position.ext_toNat
  · rw [line_position small hinside, hword, hfeeds]
    omega
  · rw [column_position small hinside, hword]
    omega

end LineIndex

open LineIndex in
/-- **Positions and offsets are two forms of the same thing.** In a text of less than `2 ^ 32 - 1`
bytes no number overflows; the position of an offset counts the line feeds before it and the bytes
since the last of them; later offsets have later positions; and the position of an offset leads back
to it, as the offset of a position on some line leads back to that position. -/
theorem positions_invert_offsets (text : String) (small : text.utf8ByteSize < 2 ^ 32 - 1) :
    ofText? text = some (ofText text) ∧
    (ofText text).lineCount = (byteLines text).length ∧
    (∀ offset : UInt32, offset.toNat ≤ text.utf8ByteSize →
      ((ofText text).position offset).line.toNat
        = 1 + ((bytes text).take offset.toNat).count lineFeed ∧
      ((ofText text).position offset).column.toNat
        = 1 + (offset.toNat - lineStart (bytes text) offset.toNat) ∧
      (ofText text).position? offset = some ((ofText text).position offset) ∧
      (ofText text).offset? ((ofText text).position offset) = some offset ∧
      (ofText text).offset ((ofText text).position offset) = offset) ∧
    (∀ i j : UInt32, i < j → j.toNat ≤ text.utf8ByteSize →
      ((ofText text).position i).Before ((ofText text).position j)) ∧
    (∀ p : Position, 1 ≤ p.line.toNat → p.line.toNat ≤ (ofText text).lineCount →
      1 ≤ p.column.toNat → p.column.toNat ≤ columns text p.line.toNat →
      (ofText text).offset? p = some ((ofText text).offset p) ∧
      (ofText text).position? ((ofText text).offset p) = some p ∧
      (ofText text).position ((ofText text).offset p) = p) := by
  refine ⟨ofText?_eq (by omega), ?_, ?_, ?_, ?_⟩
  · rw [lineCount_ofText, byteLines, length_splitOn_lineFeed]
  · intro offset inside
    refine ⟨?_, ?_, position?_eq small inside, offset?_position small inside,
      offset_position small inside⟩
    · rw [line_position small inside, Nat.add_comm]
    · rw [column_position small inside, Nat.add_comm]
  · intro i j h inside
    exact position_before small h inside
  · intro p hline hcount hcolumn hwidth
    obtain ⟨offset, inside, rfl⟩ := exists_position_eq small hline hcount hcolumn hwidth
    rw [offset_position small inside]
    exact ⟨offset?_position small inside, position?_eq small inside, rfl⟩

/-- Offset 3 is the start of the second line, after a character of two bytes and a line feed. -/
theorem positions_invert_offsets_umlaut :
    "ä\nb".utf8ByteSize < 2 ^ 32 - 1 ∧
      (LineIndex.ofText "ä\nb").position? 3 = some ⟨2, 1⟩ ∧
      (LineIndex.ofText "ä\nb").offset ⟨2, 1⟩ = 3 ∧
      (LineIndex.ofText "ä\nb").position ((LineIndex.ofText "ä\nb").offset ⟨1, 3⟩) = ⟨1, 3⟩ := by
  have small : "ä\nb".utf8ByteSize < 2 ^ 32 - 1 := by decide
  have hposition : (LineIndex.ofText "ä\nb").position 3 = ⟨2, 1⟩ := by decide
  obtain ⟨-, -, hoffsets, -, hpositions⟩ := positions_invert_offsets "ä\nb" small
  obtain ⟨-, -, hexact, -, hback⟩ := hoffsets 3 (by decide)
  rw [hposition] at hexact hback
  exact ⟨small, hexact, hback,
    (hpositions ⟨1, 3⟩ (by decide) (by decide) (by decide) (by decide)).2.2⟩

end TypeEngine
