import Mathlib.Data.List.Basic
import Mathlib.Tactic.SplitIfs
import TypeEngine.Error

/-!
# Messages

The message of an error is the template of its code with the arguments filled in one after another,
each into the text that the ones before it left. A later argument is therefore also filled into the
values before it, where these hold its slot, and messages depend on the order of the arguments.

**Templates.** `MessageTemplate.ofChars` cuts a text at its slots. What remains are texts without
braces, so a slot found later lies within a value, unless it spans the whole text between two places
(`infix_of_crossing`). A key that holds no such text is filled into each place on its own
(`replaceAll_render`), and so are all arguments of such keys (`fillIn_render`).

**Values.** In the place of a key stands its value with the later arguments filled in
(`fillIn_slot`), which is the value itself if it holds none of their slots (`fillIn_eq_self`).

Main result: `message_fills_in_turn`.
-/

namespace TypeEngine

/-! ## Replacing -/

namespace Text

variable {pattern value s t : List Char} {skip : Nat}

/-- What the test for an occurrence says. -/
theorem of_match {c : Char} (h : (!pattern.isEmpty && pattern.isPrefixOf (c :: s)) = true) :
    0 < pattern.length ∧ pattern.length - 1 ≤ s.length ∧ pattern <+: c :: s := by
  rw [Bool.and_eq_true, List.isPrefixOf_iff_prefix] at h
  have hpos : 0 < pattern.length := by
    rw [List.length_pos_iff]
    simpa using h.1
  have hle := h.2.length_le
  rw [List.length_cons] at hle
  exact ⟨hpos, by omega, h.2⟩

/-- Replacing goes on behind `s` as if nothing stood before, if no occurrence leads out of `s`. -/
theorem replaceFrom_append (hskip : skip ≤ s.length)
    (h : ∀ u, u ≠ [] → u <:+ s → pattern <+: u ++ t → pattern <+: u) :
    replaceFrom pattern value skip (s ++ t)
      = replaceFrom pattern value skip s ++ replaceFrom pattern value 0 t := by
  induction s generalizing skip with
  | nil =>
    have hzero : skip = 0 := by simpa using hskip
    subst hzero
    simp [replaceFrom]
  | cons c s ih =>
    have hs : ∀ u, u ≠ [] → u <:+ s → pattern <+: u ++ t → pattern <+: u :=
      fun u hne hu => h u hne (hu.trans (List.suffix_cons c s))
    cases skip with
    | succ skip =>
      have hskip : skip ≤ s.length := by simpa using hskip
      simpa [replaceFrom] using ih hskip hs
    | zero =>
      have hstarts : pattern.isPrefixOf (c :: (s ++ t)) = pattern.isPrefixOf (c :: s) := by
        rw [Bool.eq_iff_iff, List.isPrefixOf_iff_prefix, List.isPrefixOf_iff_prefix]
        refine ⟨fun hp => h (c :: s) (by simp) List.suffix_rfl hp, fun hp => ?_⟩
        exact hp.trans (List.prefix_append (c :: s) t)
      rw [List.cons_append, replaceFrom, replaceFrom, hstarts]
      split_ifs with hmatch
      · rw [ih (of_match hmatch).2.1 hs, List.append_assoc]
      · rw [ih (Nat.zero_le _) hs, List.cons_append]

theorem replaceFrom_of_notMem {c : Char} (h : c ∉ s) :
    replaceFrom (c :: pattern) value 0 (s ++ t) = s ++ replaceFrom (c :: pattern) value 0 t := by
  induction s with
  | nil => rfl
  | cons d s ih =>
    simp only [List.mem_cons, not_or] at h
    rw [List.cons_append, replaceFrom, if_neg (by simp [h.1]), ih h.2, List.cons_append]

theorem replaceFrom_eq_self (h : ¬ pattern <:+: s) : replaceFrom pattern value 0 s = s := by
  induction s with
  | nil => rfl
  | cons c s ih =>
    have hstarts : ¬ pattern <+: c :: s := fun hp => h hp.isInfix
    have hwithin : ¬ pattern <:+: s := fun hi => h (hi.trans (List.suffix_cons c s).isInfix)
    rw [replaceFrom, if_neg (by simp [List.isPrefixOf_iff_prefix, hstarts]), ih hwithin]

theorem replaceFrom_skip (s : List Char) : replaceFrom pattern value s.length s = [] := by
  induction s with
  | nil => rfl
  | cons c s ih => simpa [replaceFrom] using ih

theorem replaceFrom_self (hne : pattern ≠ []) : replaceFrom pattern value 0 pattern = value := by
  cases hp : pattern with
  | nil => exact absurd hp hne
  | cons c rest =>
    rw [replaceFrom, if_pos (by simp), List.length_cons, Nat.add_sub_cancel, replaceFrom_skip,
      List.append_nil]

theorem length_replaceFrom_le (pattern s : List Char) (skip : Nat) {value' : List Char}
    (h : value.length ≤ value'.length) :
    (replaceFrom pattern value skip s).length ≤ (replaceFrom pattern value' skip s).length := by
  induction s generalizing skip with
  | nil => simp [replaceFrom]
  | cons c s ih =>
    cases skip with
    | succ skip => simpa [replaceFrom] using ih skip
    | zero =>
      rw [replaceFrom, replaceFrom]
      split_ifs
      · simp only [List.length_append]
        exact Nat.add_le_add h (ih _)
      · exact Nat.succ_le_succ (ih 0)

theorem replaceFrom_pattern (hskip : skip ≤ s.length) :
    replaceFrom pattern pattern skip s = s.drop skip := by
  induction s generalizing skip with
  | nil => simp [replaceFrom]
  | cons c s ih =>
    cases skip with
    | succ skip =>
      rw [replaceFrom, List.drop_succ_cons]
      exact ih (Nat.le_of_succ_le_succ hskip)
    | zero =>
      rw [replaceFrom]
      split_ifs with hmatch
      · obtain ⟨hpos, hlength, t, ht⟩ := of_match hmatch
        have hdrop : s.drop (pattern.length - 1) = t := by
          have hcons := congrArg (List.drop pattern.length) ht
          rw [List.drop_left] at hcons
          rw [hcons, ← List.drop_succ_cons, Nat.sub_add_cancel hpos]
        rw [ih hlength, hdrop, ht, List.drop_zero]
      · rw [ih (Nat.zero_le _)]
        rfl

/-- A text stays as it is only if the pattern does not occur, or is put in for itself. -/
theorem replaceFrom_eq_self_iff (hne : pattern ≠ []) :
    replaceFrom pattern value 0 s = s ↔ ¬ pattern <:+: s ∨ value = pattern := by
  constructor
  · intro heq
    by_cases hoccurs : pattern <:+: s
    · right
      induction s with
      | nil => exact absurd (List.infix_nil.1 hoccurs) hne
      | cons c s ih =>
        rw [replaceFrom] at heq
        split_ifs at heq with hmatch
        · -- at the first occurrence, since a longer or a shorter value would change the length
          obtain ⟨hpos, hlength, t, ht⟩ := of_match hmatch
          have htotal := congrArg List.length heq
          rw [List.length_append, List.length_cons] at htotal
          have hrest : (replaceFrom pattern pattern (pattern.length - 1) s).length
              = s.length - (pattern.length - 1) := by
            rw [replaceFrom_pattern hlength, List.length_drop]
          have hsame : value.length = pattern.length := by
            rcases Nat.le_total value.length pattern.length with hle | hle
            · have := length_replaceFrom_le pattern s (pattern.length - 1) hle
              omega
            · have := length_replaceFrom_le pattern s (pattern.length - 1) hle
              omega
          exact List.append_inj_left (heq.trans ht.symm) hsame
        · have hstarts : ¬ pattern <+: c :: s := by
            intro hp
            exact hmatch (by simp [hne, List.isPrefixOf_iff_prefix.2 hp])
          exact ih (List.cons.inj heq).2 ((List.infix_cons_iff.1 hoccurs).resolve_left hstarts)
    · exact .inl hoccurs
  · rintro (hoccurs | rfl)
    · exact replaceFrom_eq_self hoccurs
    · exact replaceFrom_pattern (Nat.zero_le _)

theorem toList_replaceAll (pattern value s : String) :
    (replaceAll pattern value s).toList = replaceFrom pattern.toList value.toList 0 s.toList :=
  String.toList_ofList

end Text

/-! ## Slots -/

open ErrorCode (slot)

theorem toList_slot (key : String) : (slot key).toList = '{' :: (key.toList ++ ['}']) := by
  simp [slot]

/-- A slot that leads out of `s` into what follows spans the text up to the next place. -/
theorem infix_of_crossing {key s text rest : List Char} (hs : s ≠ []) (htext : '}' ∉ text)
    (h : '{' :: (key ++ ['}']) <+: s ++ (text ++ rest)) (hnot : ¬ '{' :: (key ++ ['}']) <+: s) :
    text <:+: key ∧ rest ≠ [] := by
  obtain ⟨u, hu⟩ := h
  rcases List.append_eq_append_iff.1 hu with ⟨v, rfl, -⟩ | ⟨v, hslot, hv⟩
  · exact absurd (List.prefix_append _ v) hnot
  -- `v` is the part of the slot outside `s`: it ends in the closing brace
  rcases List.eq_nil_or_concat v with rfl | ⟨w, close, rfl⟩
  · rw [List.append_nil] at hslot
    exact absurd (hslot ▸ List.prefix_rfl) hnot
  obtain ⟨x, s, rfl⟩ := List.exists_cons_of_ne_nil hs
  simp only [List.concat_eq_append, List.cons_append, List.cons.injEq] at hslot hv
  obtain ⟨rfl, hkey⟩ := hslot
  rw [← List.append_assoc] at hkey
  obtain ⟨rfl, rfl⟩ := List.append_singleton_inj.1 hkey
  rcases List.append_eq_append_iff.1 hv with ⟨v, hspan, rfl⟩ | ⟨v, rfl, -⟩
  · rcases List.eq_nil_or_concat v with rfl | ⟨z, close, rfl⟩
    · rw [List.append_nil] at hspan
      exact absurd (hspan ▸ by simp) htext
    · rw [List.concat_eq_append, ← List.append_assoc] at hspan
      obtain ⟨rfl, -⟩ := List.append_singleton_inj.1 hspan
      exact ⟨⟨s, z, by simp⟩, by simp⟩
  · exact absurd (by simp) htext

/-- A slot is found in another one only if the two are the same. -/
theorem eq_of_slot_within {key other : String} (hopen : '{' ∉ other.toList)
    (hclose : '}' ∉ other.toList) (h : (slot key).toList <:+: (slot other).toList) :
    key = other := by
  obtain ⟨before, after, heq⟩ := h
  rw [toList_slot, toList_slot] at heq
  cases before with
  | cons x before =>
    have htail : before ++ '{' :: (key.toList ++ ['}']) ++ after = other.toList ++ ['}'] := by
      simpa using (List.cons.inj heq).2
    have hmem : '{' ∈ other.toList ++ ['}'] := htail ▸ by simp
    exact absurd (by simpa using hmem) hopen
  | nil =>
    have htail : key.toList ++ ['}'] ++ after = other.toList ++ ['}'] := by simpa using heq
    rcases List.eq_nil_or_concat after with rfl | ⟨rest, close, rfl⟩
    · exact String.toList_inj.1 (by simpa using htail)
    · rw [List.concat_eq_append, ← List.append_assoc] at htail
      exact absurd ((List.append_singleton_inj.1 htail).1 ▸ by simp) hclose

/-- Filling a slot in leaves every other slot as it is. -/
theorem replaceAll_slot {key other : String} (value : String) (hopen : '{' ∉ other.toList)
    (hclose : '}' ∉ other.toList) :
    Text.replaceAll (slot key) value (slot other) = if key = other then value else slot other := by
  apply String.toList_inj.1
  rw [Text.toList_replaceAll]
  split_ifs with hkey
  · subst hkey
    exact Text.replaceFrom_self (by simp [toList_slot])
  · exact Text.replaceFrom_eq_self fun h => hkey (eq_of_slot_within hopen hclose h)

/-! ## Templates -/

/-- A text cut at its slots: the text before the first, then each key with the text behind its
slot. -/
structure MessageTemplate where
  head : List Char
  places : List (String × List Char)
deriving DecidableEq, Repr

namespace MessageTemplate

/-- Cut a text at its slots. A slot is an opening brace and all up to the next closing one, if no
other opening brace comes before. -/
def ofChars : List Char → MessageTemplate
  | [] => ⟨[], []⟩
  | c :: cs =>
    let rest := ofChars cs
    if c = '{' ∧ '}' ∈ rest.head then
      ⟨[], (String.ofList (rest.head.takeWhile (· != '}')), (rest.head.dropWhile (· != '}')).tail)
        :: rest.places⟩
    else
      ⟨c :: rest.head, rest.places⟩

/-- The keys that have a place. -/
def keys (t : MessageTemplate) : List String :=
  t.places.map Prod.fst

/-- The texts from one place to the next. -/
def between (t : MessageTemplate) : List (List Char) :=
  (t.places.map Prod.snd).dropLast

/-- The text with `standing key` in the place of each key. -/
def render (t : MessageTemplate) (standing : String → String) : String :=
  String.ofList (t.head ++ t.places.flatMap fun p => (standing p.1).toList ++ p.2)

/-- Put each value in its place, all at once. The slot of a key without a value stays. -/
def fill (t : MessageTemplate) (values : String → Option String) : String :=
  t.render fun key => (values key).getD (slot key)

/-- No text and no key has a brace. -/
structure Plain (t : MessageTemplate) : Prop where
  head : '{' ∉ t.head
  text : ∀ p ∈ t.places, '{' ∉ p.2 ∧ '}' ∉ p.2
  key : ∀ p ∈ t.places, '{' ∉ p.1.toList ∧ '}' ∉ p.1.toList

instance (t : MessageTemplate) : Decidable t.Plain :=
  decidable_of_iff (_ ∧ _ ∧ _) ⟨fun h => ⟨h.1, h.2.1, h.2.2⟩, fun h => ⟨h.head, h.text, h.key⟩⟩

/-- The key holds none of the texts between two places. -/
def Spares (t : MessageTemplate) (key : String) : Prop :=
  ∀ text ∈ t.between, ¬ text <:+: key.toList

theorem dropWhile_eq_cons {l : List Char} {c : Char} (h : c ∈ l) :
    l.dropWhile (· != c) = c :: (l.dropWhile (· != c)).tail := by
  induction l with
  | nil => simp at h
  | cons d l ih =>
    by_cases hd : d = c
    · simp [hd]
    · rw [List.dropWhile_cons_of_pos (by simpa using hd)]
      exact ih ((List.mem_cons.1 h).resolve_left (Ne.symm hd))

/-- Nothing is lost by cutting. -/
theorem render_ofChars (cs : List Char) : (ofChars cs).render slot = String.ofList cs := by
  rw [render]
  congr 1
  induction cs with
  | nil => rfl
  | cons c cs ih =>
    rw [ofChars]
    split_ifs with hslot
    · obtain ⟨rfl, hclose⟩ := hslot
      have hhead : (ofChars cs).head.takeWhile (· != '}')
          ++ '}' :: ((ofChars cs).head.dropWhile (· != '}')).tail = (ofChars cs).head := by
        rw [← dropWhile_eq_cons hclose, List.takeWhile_append_dropWhile]
      rw [List.flatMap_cons, toList_slot, String.toList_ofList, List.nil_append]
      simp only [List.cons_append, List.append_assoc, List.nil_append]
      congr 1
      rw [← List.cons_append, ← List.append_assoc, hhead, ih]
    · rw [List.cons_append, ih]

variable {t : MessageTemplate} {f g : String → String}

theorem render_congr (h : ∀ key ∈ t.keys, f key = g key) : t.render f = t.render g := by
  have hplaces : ∀ p ∈ t.places, (f p.1).toList ++ p.2 = (g p.1).toList ++ p.2 := by
    intro p hp
    rw [h p.1 (List.mem_map_of_mem hp)]
  rw [render, render, List.flatMap_congr hplaces]

theorem length_places_le {places : List (String × List Char)} {key : String}
    (h : ∀ p ∈ places, p.1 ≠ key → f p.1 = g p.1)
    (hle : (f key).toList.length ≤ (g key).toList.length) :
    (places.flatMap fun p => (f p.1).toList ++ p.2).length
      ≤ (places.flatMap fun p => (g p.1).toList ++ p.2).length := by
  induction places with
  | nil => exact Nat.le_refl 0
  | cons p places ih =>
    have hplaces := ih fun q hq => h q (List.mem_cons_of_mem p hq)
    have hp : (f p.1).toList.length ≤ (g p.1).toList.length := by
      by_cases hkey : p.1 = key
      · rwa [hkey]
      · exact Nat.le_of_eq (congrArg (·.toList.length) (h p List.mem_cons_self hkey))
    simp only [List.flatMap_cons, List.length_append]
    omega

/-- Texts that agree outside the places of one key are equal only if they agree there too. -/
theorem eq_of_places_eq {places : List (String × List Char)} {key : String}
    (hkey : key ∈ places.map Prod.fst) (h : ∀ p ∈ places, p.1 ≠ key → f p.1 = g p.1)
    (heq : places.flatMap (fun p => (f p.1).toList ++ p.2)
      = places.flatMap fun p => (g p.1).toList ++ p.2) : f key = g key := by
  induction places with
  | nil => simp at hkey
  | cons p places ih =>
    have hplaces : ∀ q ∈ places, q.1 ≠ key → f q.1 = g q.1 :=
      fun q hq => h q (List.mem_cons_of_mem p hq)
    rw [List.flatMap_cons, List.flatMap_cons, List.append_assoc, List.append_assoc] at heq
    by_cases hp : p.1 = key
    · subst hp
      -- a shorter text in the places of the key would make the whole shorter
      have hlength := congrArg List.length heq
      simp only [List.length_append] at hlength
      have hsame : (f p.1).toList.length = (g p.1).toList.length := by
        rcases Nat.le_total (f p.1).toList.length (g p.1).toList.length with hle | hle
        · have := length_places_le hplaces hle
          omega
        · have := length_places_le (fun q hq hne => (hplaces q hq hne).symm) hle
          omega
      exact String.toList_inj.1 (List.append_inj_left heq hsame)
    · rw [h p List.mem_cons_self hp, List.append_cancel_left_eq, List.append_cancel_left_eq] at heq
      rw [List.map_cons, List.mem_cons] at hkey
      exact ih (hkey.resolve_left (Ne.symm hp)) hplaces heq

theorem render_eq_iff {key : String} (hkey : key ∈ t.keys)
    (h : ∀ other ∈ t.keys, other ≠ key → f other = g other) :
    t.render f = t.render g ↔ f key = g key := by
  constructor
  · intro heq
    rw [render, render, String.ofList_inj, List.append_cancel_left_eq] at heq
    exact eq_of_places_eq hkey (fun p hp => h p.1 (List.mem_map_of_mem hp)) heq
  · intro heq
    apply render_congr
    intro other hother
    by_cases hne : other = key
    · rw [hne, heq]
    · exact h other hother hne

/-- Filling a slot into all places. No occurrence leads from one place to the next, since it would
span the text between the two. -/
theorem replaceFrom_places {key : String} {value : List Char} {places : List (String × List Char)}
    (htext : ∀ p ∈ places, '{' ∉ p.2 ∧ '}' ∉ p.2)
    (hkey : ∀ text ∈ (places.map Prod.snd).dropLast, ¬ text <:+: key.toList)
    (standing : String → String) :
    Text.replaceFrom (slot key).toList value 0
        (places.flatMap fun p => (standing p.1).toList ++ p.2)
      = places.flatMap fun p =>
          Text.replaceFrom (slot key).toList value 0 (standing p.1).toList ++ p.2 := by
  induction places with
  | nil => rfl
  | cons p places ih =>
    have hbetween : ∀ text ∈ (places.map Prod.snd).dropLast, ¬ text <:+: key.toList := by
      intro text hmem
      cases places with
      | nil => simp at hmem
      | cons q places => exact hkey text (List.mem_cons_of_mem p.2 hmem)
    have hrest := ih (fun q hq => htext q (List.mem_cons_of_mem p hq)) hbetween
    have hcross (u : List Char) (hne : u ≠ []) (h : (slot key).toList <+: u ++ (p.2
        ++ places.flatMap fun p => (standing p.1).toList ++ p.2)) : (slot key).toList <+: u := by
      by_cases hnot : (slot key).toList <+: u
      · exact hnot
      · rw [toList_slot] at h hnot
        obtain ⟨hspan, hplaces⟩ := infix_of_crossing hne (htext p List.mem_cons_self).2 h hnot
        cases places with
        | nil => exact absurd rfl hplaces
        | cons q places => exact absurd hspan (hkey p.2 List.mem_cons_self)
    rw [List.flatMap_cons, List.flatMap_cons, List.append_assoc,
      Text.replaceFrom_append (Nat.zero_le _) fun u hne _ h => hcross u hne h, ← hrest, toList_slot,
      Text.replaceFrom_of_notMem (htext p List.mem_cons_self).1, List.append_assoc]

theorem replaceAll_render (plain : t.Plain) {key : String} (hkey : t.Spares key) (value : String)
    (standing : String → String) :
    Text.replaceAll (slot key) value (t.render standing)
      = t.render fun k => Text.replaceAll (slot key) value (standing k) := by
  apply String.toList_inj.1
  rw [Text.toList_replaceAll, render, render, String.toList_ofList, String.toList_ofList]
  simp only [Text.toList_replaceAll]
  rw [← replaceFrom_places plain.text hkey, toList_slot, Text.replaceFrom_of_notMem plain.head]

end MessageTemplate

/-! ## Arguments -/

/-- Fill arguments into a text, one after another. -/
def fillIn (arguments : List (String × String)) (text : String) : String :=
  arguments.foldl (fun text p => Text.replaceAll (slot p.1) p.2 text) text

/-- What stands in the place of a key in the end: its value with the later arguments filled in. -/
def inserted : List (String × String) → String → Option String
  | [], _ => none
  | (k, value) :: rest, key => if k = key then some (fillIn rest value) else inserted rest key

theorem message_eq_fillIn (e : TypeError) : e.message = fillIn e.arguments e.code.description :=
  rfl

theorem fillIn_cons (p : String × String) (arguments : List (String × String)) (text : String) :
    fillIn (p :: arguments) text = fillIn arguments (Text.replaceAll (slot p.1) p.2 text) :=
  rfl

variable {arguments : List (String × String)}

/-- Each place is filled on its own. -/
theorem fillIn_render {t : MessageTemplate} (plain : t.Plain) (h : ∀ p ∈ arguments, t.Spares p.1)
    (standing : String → String) :
    fillIn arguments (t.render standing) = t.render fun key => fillIn arguments (standing key) := by
  induction arguments generalizing standing with
  | nil => rfl
  | cons p arguments ih =>
    rw [fillIn_cons, MessageTemplate.replaceAll_render plain (h p List.mem_cons_self),
      ih fun q hq => h q (List.mem_cons_of_mem p hq)]
    rfl

theorem fillIn_slot {key : String} (hopen : '{' ∉ key.toList) (hclose : '}' ∉ key.toList) :
    fillIn arguments (slot key) = (inserted arguments key).getD (slot key) := by
  induction arguments with
  | nil => rfl
  | cons p arguments ih =>
    rw [fillIn_cons, replaceAll_slot _ hopen hclose, inserted]
    split_ifs
    · rfl
    · exact ih

/-- A text without the slots of the arguments stays as it is. -/
theorem fillIn_eq_self {text : String}
    (h : ∀ p ∈ arguments, ¬ (slot p.1).toList <:+: text.toList) : fillIn arguments text = text := by
  induction arguments with
  | nil => rfl
  | cons p arguments ih =>
    have hp : Text.replaceAll (slot p.1) p.2 text = text := by
      apply String.toList_inj.1
      rw [Text.toList_replaceAll, Text.replaceFrom_eq_self (h p List.mem_cons_self)]
    rw [fillIn_cons, hp]
    exact ih fun q hq => h q (List.mem_cons_of_mem p hq)

/-! ## Attaching -/

/-- The calls that no later one with the same key replaces. -/
def lasting : List (String × String) → List (String × String)
  | [] => []
  | p :: calls => if p.1 ∈ calls.map Prod.fst then lasting calls else p :: lasting calls

/-- The value that was attached to a key last. -/
def latest (calls : List (String × String)) (key : String) : Option String :=
  calls.reverse.lookup key

/-- Attach arguments one after another. -/
def TypeError.attachAll (e : TypeError) (calls : List (String × String)) : TypeError :=
  calls.foldl (fun e p => e.attach p.1 p.2) e

variable {calls : List (String × String)}

theorem lasting_sublist (calls : List (String × String)) : (lasting calls).Sublist calls := by
  induction calls with
  | nil => exact .slnil
  | cons p calls ih =>
    rw [lasting]
    split_ifs
    · exact ih.cons p
    · exact ih.cons_cons p

theorem pairwise_lasting (calls : List (String × String)) :
    (lasting calls).Pairwise fun p q => p.1 ≠ q.1 := by
  induction calls with
  | nil => exact .nil
  | cons p calls ih =>
    rw [lasting]
    split_ifs with hp
    · exact ih
    · refine List.pairwise_cons.2 ⟨fun q hq heq => hp ?_, ih⟩
      rw [heq]
      exact List.mem_map_of_mem ((lasting_sublist calls).subset hq)

theorem latest_cons (k value : String) (calls : List (String × String)) (key : String) :
    latest ((k, value) :: calls) key
      = (latest calls key).or (if key = k then some value else none) := by
  rw [latest, List.reverse_cons, List.lookup_append, lookup_cons, List.lookup_nil, latest]

theorem latest_isSome_iff {key : String} :
    (latest calls key).isSome ↔ key ∈ calls.map Prod.fst := by
  rw [latest, List.lookup_isSome_iff, List.mem_map]
  simp only [List.mem_reverse, beq_iff_eq, @eq_comm _ key]

theorem lookup_lasting (calls : List (String × String)) (key : String) :
    (lasting calls).lookup key = latest calls key := by
  induction calls with
  | nil => rfl
  | cons p calls ih =>
    obtain ⟨k, value⟩ := p
    rw [lasting, latest_cons]
    by_cases hkey : key = k
    · subst hkey
      rw [if_pos rfl]
      by_cases hp : key ∈ calls.map Prod.fst
      · rw [if_pos hp, ih, Option.or_of_isSome (latest_isSome_iff.2 hp)]
      · have hnone : latest calls key = none := by
          rwa [← Option.not_isSome_iff_eq_none, latest_isSome_iff]
        rw [if_neg hp, hnone, lookup_cons, if_pos rfl, Option.none_or]
    · rw [if_neg hkey, Option.or_none]
      split_ifs
      · exact ih
      · rw [lookup_cons, if_neg hkey, ih]

theorem arguments_attachAll (e : TypeError) (calls : List (String × String)) :
    (e.attachAll calls).arguments
      = e.arguments.filter (fun p => p.1 ∉ calls.map Prod.fst) ++ lasting calls := by
  induction calls generalizing e with
  | nil => simp [TypeError.attachAll, lasting]
  | cons p calls ih =>
    rw [TypeError.attachAll, List.foldl_cons, ← TypeError.attachAll, ih, TypeError.attach, lasting]
    have hfilter :
        (e.arguments.filter fun q => q.1 != p.1).filter (fun q => q.1 ∉ calls.map Prod.fst)
          = e.arguments.filter fun q => q.1 ∉ (p :: calls).map Prod.fst := by
      rw [List.filter_filter]
      congr 1
      funext q
      rw [Bool.eq_iff_iff, Bool.and_eq_true, decide_eq_true_eq, decide_eq_true_eq, bne_iff_ne,
        List.map_cons, List.mem_cons, not_or, and_comm]
    rw [List.filter_append, hfilter, List.append_assoc]
    split_ifs with hp
    · rw [List.filter_cons_of_neg (by simpa using hp)]
      rfl
    · rw [List.filter_cons_of_pos (by simpa using hp)]
      rfl

theorem code_attachAll (e : TypeError) (calls : List (String × String)) :
    (e.attachAll calls).code = e.code := by
  induction calls generalizing e with
  | nil => rfl
  | cons p calls ih => exact ih (e.attach p.1 p.2)

/-- The template of a code. -/
def ErrorCode.template (code : ErrorCode) : MessageTemplate :=
  .ofChars code.description.toList

theorem ErrorCode.mem_all (code : ErrorCode) : code ∈ ErrorCode.all := by
  cases code <;> decide

theorem template_facts : ∀ code ∈ ErrorCode.all,
    code.template.Plain ∧ ∀ text ∈ code.template.between, ' ' ∈ text := by
  decide +kernel

theorem template_plain (code : ErrorCode) : code.template.Plain :=
  (template_facts code code.mem_all).1

/-- Keys that are words hold no text between two places. -/
theorem spares_of_notMem {key : String} (h : ' ' ∉ key.toList) (code : ErrorCode) :
    code.template.Spares key := by
  intro text hmem hwithin
  exact h (hwithin.subset ((template_facts code code.mem_all).2 text hmem))

/-! ## What the message shows -/

/-- The message of any error whose keys hold none of the texts between two places. -/
theorem message_eq_fill {e : TypeError} (h : ∀ p ∈ e.arguments, e.code.template.Spares p.1) :
    e.message = e.code.template.fill (inserted e.arguments) := by
  have hdescription : e.code.description = e.code.template.render slot := by
    rw [ErrorCode.template, MessageTemplate.render_ofChars, String.ofList_toList]
  have plain := template_plain e.code
  rw [message_eq_fillIn, hdescription, fillIn_render plain h]
  apply MessageTemplate.render_congr
  intro key hkey
  obtain ⟨p, hp, rfl⟩ := List.mem_map.1 hkey
  exact fillIn_slot (plain.key p hp).1 (plain.key p hp).2

/-- A value stands as it is if it holds no slot of a later argument. -/
theorem inserted_eq_lookup {keys : List String} {key : String} (hkey : key ∈ keys)
    (h : arguments.Pairwise fun p q => p.1 ∈ keys → ¬ (slot q.1).toList <:+: p.2.toList) :
    inserted arguments key = arguments.lookup key := by
  induction arguments with
  | nil => rfl
  | cons p arguments ih =>
    obtain ⟨k, value⟩ := p
    obtain ⟨hp, harguments⟩ := List.pairwise_cons.1 h
    rw [inserted, lookup_cons]
    by_cases hk : k = key
    · rw [if_pos hk, if_pos hk.symm, fillIn_eq_self fun q hq => hp q hq (hk ▸ hkey)]
    · rw [if_neg hk, if_neg (Ne.symm hk), ih harguments]

theorem inserted_isSome_iff {key : String} :
    (inserted arguments key).isSome ↔ key ∈ arguments.map Prod.fst := by
  induction arguments with
  | nil => simp [inserted]
  | cons p arguments ih =>
    rw [inserted, List.map_cons, List.mem_cons]
    split_ifs with hk
    · simp [hk]
    · rw [ih]
      simp [Ne.symm hk]

theorem inserted_isSome_eq (calls : List (String × String)) (key : String) :
    (inserted (lasting calls) key).isSome = (latest calls key).isSome := by
  rw [← lookup_lasting, Bool.eq_iff_iff, inserted_isSome_iff, List.lookup_isSome_iff, List.mem_map]
  simp only [beq_iff_eq, @eq_comm _ key]

theorem latest_of_mem_lasting {p : String × String} (hp : p ∈ lasting calls) :
    latest calls p.1 = some p.2 := by
  obtain ⟨before, after, hsplit⟩ := List.append_of_mem hp
  have hdistinct := pairwise_lasting calls
  rw [hsplit, List.pairwise_append] at hdistinct
  rw [← lookup_lasting, List.lookup_eq_some_iff]
  refine ⟨before, after, hsplit, fun q hq => ?_⟩
  simpa using Ne.symm (hdistinct.2.2 q hq p List.mem_cons_self)

/-- No value holds the slot of another key. -/
def Unmixed (keys : List String) (values : String → Option String) : Prop :=
  ∀ key ∈ keys, ∀ value, values key = some value → ∀ other, other ≠ key → (values other).isSome →
    ¬ (slot other).toList <:+: value.toList

theorem pairwise_of_unmixed {keys : List String} (h : Unmixed keys (latest calls)) :
    (lasting calls).Pairwise fun p q => p.1 ∈ keys → ¬ (slot q.1).toList <:+: p.2.toList := by
  refine (pairwise_lasting calls).imp_of_mem ?_
  intro p q hp hq hne hkey
  have hq : (latest calls q.1).isSome := by
    rw [latest_of_mem_lasting hq]
    rfl
  exact h p.1 hkey p.2 (latest_of_mem_lasting hp) q.1 (Ne.symm hne) hq

/-- The error of a code at a location, with arguments attached one after another. -/
def TypeError.ofCalls (code : ErrorCode) (location : Option Location)
    (calls : List (String × String)) : TypeError :=
  TypeError.attachAll ⟨code, location, []⟩ calls

theorem arguments_ofCalls (code : ErrorCode) (location : Option Location)
    (calls : List (String × String)) :
    (TypeError.ofCalls code location calls).arguments = lasting calls := by
  rw [TypeError.ofCalls, arguments_attachAll]
  rfl

section

variable {code : ErrorCode} (location : Option Location)
  (spared : ∀ p ∈ calls, code.template.Spares p.1)
include spared

theorem message_ofCalls :
    (TypeError.ofCalls code location calls).message
      = code.template.fill (inserted (lasting calls)) := by
  have hcode : (TypeError.ofCalls code location calls).code = code := code_attachAll _ _
  have harguments := arguments_ofCalls code location calls
  have hspared : ∀ p ∈ (TypeError.ofCalls code location calls).arguments,
      (TypeError.ofCalls code location calls).code.template.Spares p.1 := by
    rw [hcode, harguments]
    intro p hp
    exact spared p ((lasting_sublist calls).subset hp)
  rw [message_eq_fill hspared, hcode, harguments]

theorem message_eq_fill_latest (h : (lasting calls).Pairwise fun p q =>
      p.1 ∈ code.template.keys → ¬ (slot q.1).toList <:+: p.2.toList) :
    (TypeError.ofCalls code location calls).message = code.template.fill (latest calls) := by
  rw [message_ofCalls location spared]
  apply MessageTemplate.render_congr
  intro key hkey
  rw [inserted_eq_lookup hkey h, lookup_lasting]

/-- If the text in at most one place is not its value, the message tells. -/
theorem message_eq_fill_latest_iff {key : String} (hkey : key ∈ code.template.keys)
    (h : ∀ other ∈ code.template.keys, other ≠ key →
      inserted (lasting calls) other = latest calls other) :
    (TypeError.ofCalls code location calls).message = code.template.fill (latest calls) ↔
      inserted (lasting calls) key = latest calls key := by
  rw [message_ofCalls location spared, MessageTemplate.fill, MessageTemplate.fill,
    MessageTemplate.render_eq_iff hkey fun other hother hne => by rw [h other hother hne]]
  have hsome := inserted_isSome_eq calls key
  cases hi : inserted (lasting calls) key <;> cases hl : latest calls key <;> simp_all

end

/-- With two arguments, the message shows the values as they are exactly if the first does not hold
the slot of the second, or the second is that slot. -/
theorem message_of_two_iff {code : ErrorCode} (location : Option Location)
    {key other value text : String} (hkey : key ∈ code.template.keys) (hne : key ≠ other)
    (spared : ∀ p ∈ [(key, value), (other, text)], code.template.Spares p.1) :
    (TypeError.ofCalls code location [(key, value), (other, text)]).message
        = code.template.fill (latest [(key, value), (other, text)]) ↔
      ¬ (slot other).toList <:+: value.toList ∨ text = slot other := by
  have hlasting : lasting [(key, value), (other, text)] = [(key, value), (other, text)] := by
    simp [lasting, hne]
  have hlatest (k : String) : latest [(key, value), (other, text)] k
      = if k = key then some value else if k = other then some text else none := by
    rw [← lookup_lasting, hlasting, lookup_cons, lookup_cons, List.lookup_nil]
  have hinserted (k : String) : inserted [(key, value), (other, text)] k
      = if k = key then some (Text.replaceAll (slot other) text value)
        else if k = other then some text else none := by
    simp only [inserted, @eq_comm _ k]
    rfl
  have hothers : ∀ k ∈ code.template.keys, k ≠ key →
      inserted (lasting [(key, value), (other, text)]) k
        = latest [(key, value), (other, text)] k := by
    intro k _ hk
    rw [hlasting, hlatest, hinserted, if_neg hk, if_neg hk]
  rw [message_eq_fill_latest_iff location spared hkey hothers, hlasting, hlatest, hinserted,
    if_pos rfl, if_pos rfl, Option.some_inj, ← String.toList_inj, Text.toList_replaceAll,
    Text.replaceFrom_eq_self_iff (by simp [toList_slot]), String.toList_inj]

/-- **Arguments are filled in one after another, each also into the values before it.** In the place
of a key stands the value that was attached to it last, with all arguments filled in that got their
last value later. So the message shows the values as they are if no value holds the slot of a later
argument. With two arguments it does so only then, or if the later value is its own slot. And it
does not depend on the order of the arguments if no value holds the slot of another one. -/
theorem message_fills_in_turn (code : ErrorCode) (location : Option Location)
    (calls : List (String × String)) (spared : ∀ p ∈ calls, code.template.Spares p.1) :
    (∀ key, (TypeError.ofCalls code location calls).argument? key = latest calls key) ∧
    (TypeError.ofCalls code location calls).message
      = code.template.fill (inserted (lasting calls)) ∧
    ((lasting calls).Pairwise (fun p q =>
        p.1 ∈ code.template.keys → ¬ (slot q.1).toList <:+: p.2.toList) →
      (TypeError.ofCalls code location calls).message = code.template.fill (latest calls)) ∧
    (∀ key value other text, calls = [(key, value), (other, text)] → key ∈ code.template.keys →
      key ≠ other →
      ((TypeError.ofCalls code location calls).message = code.template.fill (latest calls) ↔
        ¬ (slot other).toList <:+: value.toList ∨ text = slot other)) ∧
    (Unmixed code.template.keys (latest calls) →
      ∀ calls' location', (∀ key, latest calls' key = latest calls key) →
        (TypeError.ofCalls code location' calls').message = code.template.fill (latest calls)) := by
  refine ⟨?_, message_ofCalls location spared, message_eq_fill_latest location spared, ?_, ?_⟩
  · intro key
    rw [TypeError.argument?, arguments_ofCalls, lookup_lasting]
  · rintro key value other text rfl hkey hne
    exact message_of_two_iff location hkey hne spared
  · intro hunmixed calls' location' hlatest
    have hsame : latest calls' = latest calls := funext hlatest
    have hspared : ∀ p ∈ calls', code.template.Spares p.1 := by
      intro p hp
      have hkey : p.1 ∈ calls.map Prod.fst := by
        rw [← latest_isSome_iff, ← hsame, latest_isSome_iff]
        exact List.mem_map_of_mem hp
      obtain ⟨q, hq, heq⟩ := List.mem_map.1 hkey
      exact heq ▸ spared q hq
    rw [← hsame] at hunmixed ⊢
    exact message_eq_fill_latest location' hspared (pairwise_of_unmixed hunmixed)

/-- The second type is also filled into the slot that the first one holds. -/
theorem message_fills_in_turn_types :
    (∀ p ∈ [("type1", slot "type2"), ("type2", "Int")],
        ErrorCode.incompatibleTypes.template.Spares p.1) ∧
      (TypeError.ofCalls .incompatibleTypes none
        [("type1", slot "type2"), ("type2", "Int")]).message
          = "Type Int is not compatible with Int" ∧
      ErrorCode.incompatibleTypes.template.fill
        (latest [("type1", slot "type2"), ("type2", "Int")])
          = "Type " ++ slot "type2" ++ " is not compatible with Int" := by
  have spared : ∀ p ∈ [("type1", slot "type2"), ("type2", "Int")],
      ErrorCode.incompatibleTypes.template.Spares p.1 := by
    have hwords : ∀ p ∈ [("type1", slot "type2"), ("type2", "Int")], ' ' ∉ p.1.toList := by decide
    exact fun p hp => spares_of_notMem (hwords p hp) _
  have hfacts : ErrorCode.incompatibleTypes.template.fill
        (inserted (lasting [("type1", slot "type2"), ("type2", "Int")]))
          = "Type Int is not compatible with Int" ∧
      ErrorCode.incompatibleTypes.template.fill
        (latest [("type1", slot "type2"), ("type2", "Int")])
          = "Type " ++ slot "type2" ++ " is not compatible with Int" := by
    decide +kernel
  obtain ⟨-, hmessage, -⟩ := message_fills_in_turn .incompatibleTypes none _ spared
  exact ⟨spared, hmessage.trans hfacts.1, hfacts.2⟩

end TypeEngine
