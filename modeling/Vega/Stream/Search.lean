import Vega.Lib.Matching
import Vega.Stream.Timed

/-!
# Searching a stream

`findMulti` finds the string that ends first in what is read, whatever the strings are
(`findMulti_first`): the index of each is the length of its longest prefix that the bytes read so
far end with, and `walkBack` keeps it so after a mismatch.

`findUntil` begins again with the character that did not match, and forgets its terminator
altogether. What it reports is there (`findUntil_sound`), but it misses some strings: it finds its
target wherever it occurs exactly if the target is `Restartable` (`find_complete_iff`).

The bytes are those that `timedRead` returns until it times out, or until one is found; a 0 byte
ends the search of `findUntil` as a time-out does, because its loop goes on only while what it reads
is positive. The three results say so in their conditions. The mathematics is in
`Vega.Lib.Matching`: what is matched is always the longest match that still can go on (`Longest`),
and starting again after a mismatch keeps it exactly for the targets that are `Restartable`.
-/

open Matching

namespace Vega

/-- The string to find. -/
def MultiTarget.text (mem : Mem) (t : MultiTarget) : List UInt8 := mem.load t.str t.len

namespace Stream

variable {mem : Mem} {str : Ptr} {len : ℕ} {b : UInt8} {w : List UInt8}

/-- A character of a string in memory. -/
theorem getElem?_load (mem : Mem) (str : Ptr) {i : ℕ} (hi : i < len) :
    (mem.load str len)[i]? = some (mem (str.add i)) := by
  rw [Mem.load, List.getElem?_map, List.getElem?_range hi]
  rfl

/-- The code compares a byte with a character of the target in memory. -/
theorem charAt_eq_iff (mem : Mem) (str : Ptr) (b : UInt8) {i : ℕ} (hi : i < len) :
    (b.toNat : ℤ) = charAt mem str i ↔ (mem.load str len)[i]? = some b := by
  rw [getElem?_load mem str hi, Option.some.injEq, charAt, Nat.cast_inj, UInt8.toNat_inj]
  exact eq_comm

/-! ### `findMulti` -/

/-- The characters before `index` are those at the end of what was matched. -/
theorem all_charAt_iff (mem : Mem) (str : Ptr) {index origIndex : ℕ} (hlt : index < origIndex)
    (hle : origIndex ≤ len) :
    ((List.range index).all fun i ↦
        charAt mem str i = charAt mem str (i + (origIndex - index))) = true ↔
      (mem.load str len).take index <:+ (mem.load str len).take origIndex := by
  rw [border_iff hlt.le (hle.trans_eq (mem.length_load ..).symm), List.all_eq_true]
  refine forall_congr' fun i ↦ ?_
  rw [List.mem_range]
  refine imp_congr_right fun hi ↦ ?_
  rw [getElem?_load mem str (by omega), getElem?_load mem str (by omega), decide_eq_true_eq, charAt,
    charAt, Nat.cast_inj, UInt8.toNat_inj, Option.some.injEq]

/-- **The way back** finds the longest match that goes on. -/
theorem walkBack_eq {origIndex : ℕ} (hlen : origIndex ≤ len) {index : ℕ} (hle : index ≤ origIndex) :
    walkBack mem str b.toNat origIndex index = back (mem.load str len) b origIndex index := by
  induction index with
  | zero => rfl
  | succ index ih =>
    have hrest := ih (Nat.le_of_succ_le hle)
    have hchar := charAt_eq_iff mem str b (Nat.lt_of_lt_of_le hle hlen)
    rw [walkBack, back]
    by_cases hc : (b.toNat : ℤ) = charAt mem str index
    · rw [if_neg (not_not_intro hc)]
      rcases Nat.eq_zero_or_pos index with rfl | hpos
      · rw [if_pos rfl, if_pos ⟨hchar.1 hc, List.nil_suffix⟩]
      · have hborder := all_charAt_iff mem str hle hlen
        rw [if_neg hpos.ne', hrest]
        simp only [hborder, hchar.1 hc, true_and]
    · rw [if_pos hc, if_neg (fun h ↦ hc (hchar.2 h.1)), hrest]

/-- The index of a target that has not been found is the length of its longest match. -/
structure Tracks (mem : Mem) (w : List UInt8) (t : MultiTarget) : Prop where
  longest : Longest (t.text mem) w t.index
  index_lt : t.index < t.len

/-- The text of a target is as long as its `len` says. -/
theorem length_text (mem : Mem) (t : MultiTarget) : (t.text mem).length = t.len :=
  mem.length_load ..

/-- The comparison of `findMulti` with the next character of a target that is not found yet. -/
theorem Tracks.char_iff {t : MultiTarget} (h : Tracks mem w t) :
    (b.toNat : ℤ) = charAt mem t.str t.index ↔ (t.text mem)[t.index]? = some b :=
  charAt_eq_iff mem t.str b h.index_lt

/-- A target that goes on being looked for. -/
theorem Tracks.next {t : MultiTarget} (h : Tracks mem w t) (hne : ¬t.text mem <:+ w ++ [b]) :
    Tracks mem (w ++ [b]) { t with index := next (t.text mem) b t.index } := by
  have hlongest := h.longest.concat b
  refine ⟨hlongest, Nat.lt_of_le_of_ne (hlongest.le.trans_eq (length_text mem t)) fun heq ↦ hne ?_⟩
  exact hlongest.eq_length_iff.1 (heq.trans (length_text mem t).symm)

/-- A target that the bytes end with is reported, and all of it is matched. -/
theorem findMultiStep_of_suffix {t : MultiTarget} (ts : List MultiTarget) (ht : Tracks mem w t)
    (hsuffix : t.text mem <:+ w ++ [b]) (i : ℕ) :
    findMultiStep mem b.toNat i (t :: ts) = (some i, { t with index := t.index + 1 } :: ts) ∧
      Longest (t.text mem) (w ++ [b]) (t.index + 1) := by
  have hlongest := ht.longest.concat b
  have hfull : next (t.text mem) b t.index = t.len :=
    (hlongest.eq_length_iff.2 hsuffix).trans (length_text mem t)
  have hlt := ht.index_lt
  have hc : (b.toNat : ℤ) = charAt mem t.str t.index := by
    by_contra hc
    have hback : next (t.text mem) b t.index = back (t.text mem) b t.index t.index :=
      if_neg fun h ↦ hc (ht.char_iff.2 h)
    have hle := back_le (t.text mem) b t.index t.index
    omega
  have hnext : next (t.text mem) b t.index = t.index + 1 := if_pos (ht.char_iff.1 hc)
  rw [hnext] at hlongest
  refine ⟨?_, hlongest⟩
  rw [findMultiStep, if_pos hc]
  exact if_pos (hnext.symm.trans hfull)

/-- One that they do not end with goes on as `next` says. -/
theorem findMultiStep_of_not_suffix {t : MultiTarget} {ts : List MultiTarget} (ht : Tracks mem w t)
    (hne : ¬t.text mem <:+ w ++ [b]) (i : ℕ) :
    findMultiStep mem b.toNat i (t :: ts) =
      ((findMultiStep mem b.toNat (i + 1) ts).1,
        { t with index := next (t.text mem) b t.index } ::
          (findMultiStep mem b.toNat (i + 1) ts).2) := by
  have hlt : next (t.text mem) b t.index ≠ t.len := fun heq ↦
    hne ((ht.longest.concat b).eq_length_iff.1 (heq.trans (length_text mem t).symm))
  rw [findMultiStep]
  by_cases hc : (b.toNat : ℤ) = charAt mem t.str t.index
  · have hnext : next (t.text mem) b t.index = t.index + 1 := if_pos (ht.char_iff.1 hc)
    rw [hnext] at hlt ⊢
    rw [if_pos hc]
    exact if_neg hlt
  · have hnext : next (t.text mem) b t.index = walkBack mem t.str b.toNat t.index t.index := by
      rw [walkBack_eq ht.index_lt.le (Nat.le_refl _)]
      exact if_neg fun h ↦ hc (ht.char_iff.2 h)
    rw [if_neg hc, hnext]
    split
    next hzero =>
      have hsame : walkBack mem t.str b.toNat t.index t.index = t.index := by
        rw [hzero]
        rfl
      rw [hsame]
    next => rfl

/-- Which of the targets is the first that the bytes end with. -/
def endsWith (mem : Mem) (ts : List MultiTarget) (w : List UInt8) : Option ℕ :=
  (ts.map (MultiTarget.text mem)).findIdx? fun p ↦ p <:+ w

/-- **The `for` loop** reports the first target that the bytes now end with. -/
theorem findMultiStep_spec {ts : List MultiTarget} (h : ∀ t ∈ ts, Tracks mem w t) (i : ℕ) :
    (findMultiStep mem b.toNat i ts).1 = (endsWith mem ts (w ++ [b])).map (i + ·) ∧
      (findMultiStep mem b.toNat i ts).2.map (MultiTarget.text mem) =
        ts.map (MultiTarget.text mem) ∧
      ((findMultiStep mem b.toNat i ts).1 = none →
        ∀ t ∈ (findMultiStep mem b.toNat i ts).2, Tracks mem (w ++ [b]) t) := by
  induction ts generalizing i with
  | nil => exact ⟨rfl, rfl, fun _ ↦ List.forall_mem_nil _⟩
  | cons t ts ih =>
    rw [List.forall_mem_cons] at h
    obtain ⟨hfirst, htexts, htracks⟩ := ih h.2 (i + 1)
    rw [endsWith, List.map_cons, List.findIdx?_cons]
    by_cases hsuffix : t.text mem <:+ w ++ [b]
    · rw [(findMultiStep_of_suffix ts h.1 hsuffix i).1]
      refine ⟨?_, rfl, fun hnone ↦ absurd hnone (Option.some_ne_none i)⟩
      simp [hsuffix]
    · rw [findMultiStep_of_not_suffix h.1 hsuffix]
      refine ⟨?_, ?_, fun hnone ↦ ?_⟩
      · have hshift : (fun j ↦ i + 1 + j) = (i + ·) ∘ (· + 1) := by
          funext j
          exact Nat.add_right_comm i 1 j
        rw [hfirst, hshift, ← Option.map_map]
        simp [hsuffix, endsWith]
      · rw [List.map_cons, htexts]
        rfl
      · exact List.forall_mem_cons.2 ⟨h.1.next hsuffix, htracks hnone⟩

/-- The loop ends with the target that it reports: those behind it have not seen the byte. -/
theorem findMultiStep_found {ts : List MultiTarget} (h : ∀ t ∈ ts, Tracks mem w t) {i k : ℕ}
    (hfound : (findMultiStep mem b.toNat i ts).1 = some (i + k)) {j : ℕ} {t : MultiTarget}
    (ht : (findMultiStep mem b.toNat i ts).2[j]? = some t) :
    Longest (t.text mem) (if j ≤ k then w ++ [b] else w) t.index := by
  induction ts generalizing i j k with
  | nil => exact absurd hfound (Option.some_ne_none (i + k)).symm
  | cons t' ts ih =>
    rw [List.forall_mem_cons] at h
    by_cases hsuffix : t'.text mem <:+ w ++ [b]
    · obtain ⟨hstep, hlongest⟩ := findMultiStep_of_suffix ts h.1 hsuffix i
      rw [hstep] at hfound ht
      obtain rfl : k = 0 := Nat.left_eq_add.1 (Option.some.inj hfound)
      cases j with
      | zero =>
        cases ht
        exact hlongest
      | succ j => exact (h.2 t (List.mem_of_getElem? ht)).longest
    · rw [findMultiStep_of_not_suffix h.1 hsuffix] at hfound ht
      cases j with
      | zero =>
        cases ht
        exact (h.1.next hsuffix).longest
      | succ j =>
        have hle : i + 1 ≤ i + k := by
          have hspec := (findMultiStep_spec (b := b) h.2 (i + 1)).1
          rw [hfound] at hspec
          obtain ⟨l, -, hl⟩ := Option.map_eq_some_iff.1 hspec.symm
          omega
        obtain ⟨k, rfl⟩ : ∃ k', k = k' + 1 := ⟨k - 1, by omega⟩
        rw [if_congr (Nat.succ_le_succ_iff) rfl rfl]
        refine ih h.2 (i := i + 1) ?_ ht
        rw [hfound, Nat.add_assoc, Nat.add_comm 1 k]

section

variable {σ : Type} {v : StreamVirtuals σ} {s s₁ s' : StreamState σ} {bs : List UInt8}
  {ts : List MultiTarget}

/-- What reads the state is given the state. -/
theorem get_bind {α : Type} (f : StreamState σ → StreamMethod σ α) (s : StreamState σ) :
    (get >>= f) s = f s s := rfl

/-- When nothing more comes the loop returns -1, and the indices are as they were. -/
theorem findMultiLoop_timeout (h : TimesOut v s s') (ts : List MultiTarget) :
    Settles (findMultiLoop v · ts) s (-1, ts) s' := by
  refine .step (.bind h ?_)
  exact .of_forall fun _ ↦ rfl

/-- A pass that finds a target. -/
theorem findMultiLoop_found {i : ℕ} {ts' : List MultiTarget}
    (h : Settles (timedRead v) s b.toNat s₁)
    (hstep : findMultiStep s.mem b.toNat 0 ts = (some i, ts')) :
    Settles (findMultiLoop v · ts) s (i, ts') s₁ := by
  refine .step (.bind h (.of_forall fun k ↦ ?_))
  rw [if_neg (Int.not_lt.2 (Int.natCast_nonneg _)), get_bind, (timed_keeps h).1, hstep]
  rfl

/-- A pass that finds none. -/
theorem findMultiLoop_next {ts' : List MultiTarget} {r : ℤ × List MultiTarget}
    (h : Settles (timedRead v) s b.toNat s₁)
    (hstep : findMultiStep s.mem b.toNat 0 ts = (none, ts'))
    (hrest : Settles (findMultiLoop v · ts') s₁ r s') : Settles (findMultiLoop v · ts) s r s' := by
  refine .step (.bind h (.of_eq (fun k ↦ ?_) hrest))
  rw [if_neg (Int.not_lt.2 (Int.natCast_nonneg _)), get_bind, (timed_keeps h).1, hstep]

/-- Which target is found depends on the texts only, not on the indices. -/
theorem endsWith_congr {ts' : List MultiTarget}
    (h : ts'.map (MultiTarget.text mem) = ts.map (MultiTarget.text mem)) (w : List UInt8) :
    endsWith mem ts' w = endsWith mem ts w := by
  rw [endsWith, h, endsWith]

/-- The passes that find nothing. -/
theorem findMultiLoop_skip (h : ∀ t ∈ ts, Tracks s.mem w t) (hbs : Delivers v s bs s₁)
    (hnone : ∀ u, u <+: bs → u ≠ [] → endsWith s.mem ts (w ++ u) = none) :
    ∃ ts', (∀ t ∈ ts', Tracks s.mem (w ++ bs) t) ∧
      ts'.map (MultiTarget.text s.mem) = ts.map (MultiTarget.text s.mem) ∧
      ∀ r s', Settles (findMultiLoop v · ts') s₁ r s' → Settles (findMultiLoop v · ts) s r s' := by
  induction bs generalizing s w ts with
  | nil =>
    obtain rfl := hbs
    rw [List.append_nil]
    exact ⟨ts, h, rfl, fun _ _ ↦ id⟩
  | cons b bs ih =>
    obtain ⟨s₂, hb, hbs⟩ := hbs
    have hmem := (timed_keeps hb).1
    obtain ⟨hfirst, htexts, htracks⟩ := findMultiStep_spec (b := b) h 0
    have hempty := hnone [b] ⟨bs, rfl⟩ (List.cons_ne_nil b [])
    rw [hempty] at hfirst
    obtain ⟨ts₁, hts₁⟩ : ∃ ts₁, findMultiStep s.mem b.toNat 0 ts = (none, ts₁) :=
      ⟨_, Prod.ext hfirst rfl⟩
    rw [hts₁] at htexts htracks
    rw [← hmem] at htexts
    have htracks₁ : ∀ t ∈ ts₁, Tracks s₂.mem (w ++ [b]) t := hmem ▸ htracks rfl
    have hnone₁ : ∀ u, u <+: bs → u ≠ [] → endsWith s₂.mem ts₁ (w ++ [b] ++ u) = none := by
      intro u hu _
      rw [endsWith_congr htexts, hmem, List.append_assoc]
      exact hnone (b :: u) ((List.prefix_cons_inj b).2 hu) (List.cons_ne_nil b u)
    obtain ⟨ts', htracks', htexts', hgo⟩ := ih htracks₁ hbs hnone₁
    refine ⟨ts', ?_, ?_, fun r s' hr ↦ findMultiLoop_next hb hts₁ (hgo r s' hr)⟩
    · rw [hmem, List.append_assoc] at htracks'
      exact htracks'
    · rw [hmem] at htexts htexts'
      exact htexts'.trans htexts

/-- Before anything is read only an empty target is found. -/
theorem endsWith_nil (mem : Mem) (ts : List MultiTarget) :
    endsWith mem ts [] = ts.findIdx? fun t ↦ t.len ≤ 0 := by
  rw [endsWith, List.findIdx?_map]
  congr 1
  funext t
  refine decide_eq_decide.2 ?_
  rw [List.suffix_nil, ← List.length_eq_zero_iff, length_text, Nat.le_zero]

/-- Before anything is read each index is the length of its longest match, which is none. -/
theorem tracks_nil (hindex : ∀ t ∈ ts, t.index = 0) (hnone : endsWith mem ts [] = none) :
    ∀ t ∈ ts, Tracks mem [] t := by
  intro t ht
  rw [endsWith_nil, List.findIdx?_eq_none_iff] at hnone
  have hlen : ¬t.len ≤ 0 := of_decide_eq_false (hnone t ht)
  refine ⟨?_, ?_⟩
  · rw [hindex t ht]
    exact Longest.nil _
  · rw [hindex t ht]
    exact Nat.lt_of_not_le hlen

/-- The targets `ts'` are `ts`, and the index of each is the length of its longest beginning that
the bytes read end with. The targets after the one found have not seen the last byte. -/
def Tracked (mem : Mem) (ts ts' : List MultiTarget) (bs : List UInt8) (found : Option ℕ) : Prop :=
  ts'.map (MultiTarget.text mem) = ts.map (MultiTarget.text mem) ∧
    ∀ j t, ts'[j]? = some t →
      Longest (t.text mem) (if ∀ i ∈ found, j ≤ i then bs else bs.dropLast) t.index

/-- **`findMulti`** finds the target that the bytes read end with first, the least one if there are
several, and takes no byte more; if the bytes that come in time end with none, it returns -1. It is
called with the indices at 0, and leaves each of them at the length of the longest beginning of its
target that the bytes end with. -/
theorem findMulti_first (hindex : ∀ t ∈ ts, t.index = 0) (hbs : Delivers v s bs s₁)
    (hbefore : ∀ u, u <+: bs → u ≠ bs → endsWith s.mem ts u = none) :
    (∀ i, endsWith s.mem ts bs = some i →
        ∃ ts', Settles (findMulti v ts) s (i, ts') s₁ ∧ Tracked s.mem ts ts' bs (some i)) ∧
      ∀ s', endsWith s.mem ts bs = none → TimesOut v s₁ s' →
        ∃ ts', Settles (findMulti v ts) s (-1, ts') s' ∧ Tracked s.mem ts ts' bs none := by
  have hloop : endsWith s.mem ts [] = none → findMulti v ts = (findMultiLoop v · ts) := by
    intro hnone
    funext k
    rw [endsWith_nil] at hnone
    rw [findMulti, hnone]
  constructor
  · intro i hi
    rcases List.eq_nil_or_concat bs with rfl | ⟨u, b, rfl⟩
    · -- an empty target is found before a byte is read
      obtain rfl := hbs
      rw [endsWith_nil] at hi
      refine ⟨ts, .of_forall fun k ↦ ?_, rfl, fun j t ht ↦ ?_⟩
      · rw [findMulti, hi]
        rfl
      · rw [hindex t (List.mem_of_getElem? ht), List.dropLast_nil, ite_self]
        exact Longest.nil _
    · rw [List.concat_eq_append] at hbs hbefore hi
      have hne : u ++ [b] ≠ [] := List.append_ne_nil_of_right_ne_nil u (List.cons_ne_nil b [])
      have hnil := hbefore [] List.nil_prefix hne.symm
      obtain ⟨s₂, hu, s₁', hb, rfl⟩ := delivers_append hbs
      have hmem := hu.keeps.1
      obtain ⟨ts', htracks, htexts, hgo⟩ := findMultiLoop_skip (tracks_nil hindex hnil) hu (by
        intro w hw _
        refine hbefore w (hw.trans (List.prefix_append ..)) ?_
        rintro rfl
        exact absurd hw.length_le (by simp))
      rw [List.nil_append] at htracks
      have hspec := findMultiStep_spec (b := b) htracks 0
      have hfound : (findMultiStep s.mem b.toNat 0 ts').1 = some i := by
        rw [hspec.1, endsWith_congr htexts, hi, Option.map_some, Nat.zero_add]
      refine ⟨(findMultiStep s.mem b.toNat 0 ts').2, ?_, hspec.2.1.trans htexts, fun j t ht ↦ ?_⟩
      · rw [hloop hnil]
        refine hgo _ _ (findMultiLoop_found hb ?_)
        rw [hmem]
        exact Prod.ext hfound rfl
      · have hlongest := findMultiStep_found htracks (k := i) (by rw [hfound, Nat.zero_add]) ht
        simpa using hlongest
  · intro s' hnone htime
    have hnil : endsWith s.mem ts [] = none := by
      by_cases hbs' : bs = []
      · rwa [hbs'] at hnone
      · exact hbefore [] List.nil_prefix (Ne.symm hbs')
    rw [hloop hnil]
    obtain ⟨ts', htracks, htexts, hgo⟩ := findMultiLoop_skip (tracks_nil hindex hnil) hbs (by
      intro u hu _
      rw [List.nil_append]
      by_cases hu' : u = bs
      · rwa [hu']
      · exact hbefore u hu hu')
    refine ⟨ts', hgo _ _ (findMultiLoop_timeout htime ts'), htexts, fun j t ht ↦ ?_⟩
    rw [if_pos (by simp)]
    exact (htracks t (List.mem_of_getElem? ht)).longest

/-- The target `aab` is found over `aaab`, where going back to the start would miss it; `ab` ends at
the same place and stands later in the list. -/
theorem findMulti_first_aab : ∃ s₁ ts',
    Settles (findMulti feed [⟨⟨.caller, 0⟩, 3, 0⟩, ⟨⟨.caller, 1⟩, 2, 0⟩])
      ⟨1000, 0, .still 0 [97, 97, 97, 98],
        Mem.storeArray (fun _ ↦ 0) ⟨.caller, 0⟩ [97, 97, 98]⟩ (0, ts') s₁ := by
  obtain ⟨s₁, -, hbs, -⟩ := delivers_still (s := ⟨1000, 0, .still 0 [97, 97, 97, 98],
    Mem.storeArray (fun _ ↦ 0) ⟨.caller, 0⟩ [97, 97, 98]⟩) [97, 97, 97, 98] (q := []) rfl
  have hbefore : ∀ u ∈ List.inits [97, 97, 97, 98], u ≠ [97, 97, 97, 98] →
      endsWith (Mem.storeArray (fun _ ↦ 0) ⟨.caller, 0⟩ [97, 97, 98])
        [⟨⟨.caller, 0⟩, 3, 0⟩, ⟨⟨.caller, 1⟩, 2, 0⟩] u = none := by
    decide
  have hindex : ∀ t ∈ ([⟨⟨.caller, 0⟩, 3, 0⟩, ⟨⟨.caller, 1⟩, 2, 0⟩] : List MultiTarget),
      t.index = 0 := by
    decide
  obtain ⟨ts', h, -⟩ := (findMulti_first hindex hbs fun u hu ↦
    hbefore u ((List.mem_inits ..).2 hu)).1 0 (by decide)
  exact ⟨s₁, ts', h⟩

end

/-! ### `findUntil` -/

section

variable {σ : Type} {v : StreamVirtuals σ} {s s₁ s' : StreamState σ} {bs : List UInt8}
  {target terminator : Ptr} {termLen index termIndex : ℕ}

/-- The new index of the target, and when all of it is matched. -/
theorem restart_index (hindex : index < len) :
    (if (b.toNat : ℤ) ≠ charAt mem target index then
        if (b.toNat : ℤ) = charAt mem target 0 then 1 else 0
      else index + 1) = restart (mem.load target len) b index := by
  have hk := charAt_eq_iff mem target b hindex
  have h0 := charAt_eq_iff mem target b (Nat.zero_lt_of_lt hindex)
  rw [restart, ite_not]
  simp only [hk, h0]

/-- The new index of the terminator. -/
theorem forget_index (hterm : 0 < termLen → termIndex < termLen) :
    (if 0 < termLen ∧ (b.toNat : ℤ) = charAt mem terminator termIndex then termIndex + 1 else 0) =
      forget (mem.load terminator termLen) b termIndex := by
  rw [forget]
  rcases Nat.eq_zero_or_pos termLen with rfl | hpos
  · rfl
  · simp only [hpos, true_and, charAt_eq_iff mem terminator b (hterm hpos)]

/-- **What becomes of a byte.** -/
theorem findUntilStep_eq (mem : Mem) (target terminator : Ptr) (b : UInt8) (hindex : index < len)
    (hterm : 0 < termLen → termIndex < termLen) :
    findUntilStep mem target len terminator termLen b.toNat index termIndex =
      if restart (mem.load target len) b index = len then .inl true
      else if 0 < termLen ∧ forget (mem.load terminator termLen) b termIndex = termLen then
        .inl false
      else .inr (restart (mem.load target len) b index,
        forget (mem.load terminator termLen) b termIndex) := by
  have hlast : ∀ i, (if 0 < termLen ∧ (b.toNat : ℤ) = charAt mem terminator termIndex then
        if termLen ≤ termIndex + 1 then (.inl false : Bool ⊕ ℕ × ℕ) else .inr (i, termIndex + 1)
      else .inr (i, 0)) =
        if 0 < termLen ∧ forget (mem.load terminator termLen) b termIndex = termLen then .inl false
        else .inr (i, forget (mem.load terminator termLen) b termIndex) := by
    intro i
    rw [← forget_index hterm]
    split
    next ht =>
      have hlt := hterm ht.1
      have hend : termLen ≤ termIndex + 1 ↔ termIndex + 1 = termLen := by omega
      simp only [hend, ht.1, true_and]
    next => rw [if_neg (by omega)]
  rw [findUntilStep, hlast, ← restart_index hindex]
  by_cases hc : (b.toNat : ℤ) = charAt mem target index
  · have hend : len ≤ index + 1 ↔ index + 1 = len := by omega
    simp only [hc, ne_eq, not_true_eq_false, if_false, if_true, true_and, hend]
  · have hend : len ≤ 1 ↔ 1 = len := by omega
    have hzero : ¬0 = len := by omega
    simp only [ne_eq, hc, not_false_eq_true, if_true]
    split <;> simp_all

/-- A pass of `findUntil`. -/
theorem findUntilLoop_read (h : Settles (timedRead v) s b.toNat s₁) (hb : b ≠ 0)
    (hindex : index < len) (hterm : 0 < termLen → termIndex < termLen) {r : Bool}
    (hrest : if restart (s.mem.load target len) b index = len then r = true ∧ s' = s₁
      else if 0 < termLen ∧ forget (s.mem.load terminator termLen) b termIndex = termLen then
        r = false ∧ s' = s₁
      else Settles (findUntilLoop v target len terminator termLen ·
        (restart (s.mem.load target len) b index)
        (forget (s.mem.load terminator termLen) b termIndex)) s₁ r s') :
    Settles (findUntilLoop v target len terminator termLen · index termIndex) s r s' := by
  have hpos : (b.toNat : ℤ) > 0 := by
    have hne : b.toNat ≠ 0 := fun h0 ↦ hb (UInt8.toNat_inj.1 h0)
    omega
  have hstep := findUntilStep_eq s₁.mem target terminator b hindex hterm
  rw [(timed_keeps h).1] at hstep
  split at hrest
  next hfull =>
    obtain ⟨rfl, rfl⟩ := hrest
    rw [if_pos hfull] at hstep
    refine .step (.bind h (.of_forall fun k ↦ ?_))
    rw [get_bind, if_pos hpos, (timed_keeps h).1, hstep]
    rfl
  next hfull =>
    rw [if_neg hfull] at hstep
    split at hrest
    next hended =>
      obtain ⟨rfl, rfl⟩ := hrest
      rw [if_pos hended] at hstep
      refine .step (.bind h (.of_forall fun k ↦ ?_))
      rw [get_bind, if_pos hpos, (timed_keeps h).1, hstep]
      rfl
    next hended =>
      rw [if_neg hended] at hstep
      refine .step (.bind h (.of_eq (fun k ↦ ?_) hrest))
      rw [get_bind, if_pos hpos, (timed_keeps h).1, hstep]

/-- A pass that reads no character, or a 0. -/
theorem findUntilLoop_end {c : ℤ} (h : Settles (timedRead v) s c s₁) (hc : c ≤ 0) :
    Settles (findUntilLoop v target len terminator termLen · index termIndex) s false s₁ := by
  refine .step (.bind h (.of_forall fun k ↦ ?_))
  show (if c > 0 then _ else _ : StreamMethod σ Bool) s₁ = _
  rw [if_neg (Int.not_lt.2 hc)]
  rfl

/-- The passes that end with neither string. -/
theorem findUntilLoop_run {r : Bool} (hbs : Delivers v s bs s₁) (hne : ∀ b ∈ bs, b ≠ 0)
    (hindex : index < len) (hterm : 0 < termLen → termIndex < termLen)
    (hnone : ∀ u, u <+: bs → u ≠ [] →
      Runs.run (fun k c ↦ restart (s.mem.load target len) c k) index u ≠ len ∧
        (0 < termLen →
          Runs.run (fun k c ↦ forget (s.mem.load terminator termLen) c k) termIndex u ≠ termLen))
    (hrest : Settles (findUntilLoop v target len terminator termLen ·
      (Runs.run (fun k c ↦ restart (s.mem.load target len) c k) index bs)
      (Runs.run (fun k c ↦ forget (s.mem.load terminator termLen) c k) termIndex bs)) s₁ r s') :
    Settles (findUntilLoop v target len terminator termLen · index termIndex) s r s' := by
  induction bs generalizing s index termIndex with
  | nil =>
    obtain rfl := hbs
    exact hrest
  | cons b bs ih =>
    obtain ⟨s₂, hb, hbs⟩ := hbs
    have hmem := (timed_keeps hb).1
    obtain ⟨htarget, hended⟩ := hnone [b] ⟨bs, rfl⟩ (List.cons_ne_nil b [])
    rw [List.forall_mem_cons] at hne
    have hle := restart_le (s.mem.load target len) index b
    have hle' := forget_le (s.mem.load terminator termLen) termIndex b
    refine findUntilLoop_read hb hne.1 hindex hterm ?_
    simp only [Runs.run_cons, Runs.run_nil] at htarget hended
    rw [if_neg htarget, if_neg fun h ↦ hended h.1 h.2]
    refine ih hbs hne.2 (by omega) (fun hpos ↦ ?_) (fun u hu hu' ↦ ?_) (by rwa [hmem])
    · have hlt := hterm hpos
      have hne := hended hpos
      omega
    · rw [hmem]
      exact hnone (b :: u) ((List.prefix_cons_inj b).2 hu) (List.cons_ne_nil b u)

/-- With a target that is not empty `findUntil` is its loop. -/
theorem findUntil_eq (hfirst : s.mem target ≠ 0) (k : ℕ) :
    findUntil v target len terminator termLen k s =
      findUntilLoop v target len terminator termLen k 0 0 s := by
  show (if s.mem target = 0 then _ else _ : StreamMethod σ Bool) s = _
  rw [if_neg hfirst]

/-- How much of the target, and of the terminator, the two searches of `findUntil` have matched. -/
def targetMatch (mem : Mem) (target : Ptr) (len : ℕ) (u : List UInt8) : ℕ :=
  Runs.run (fun k c ↦ restart (mem.load target len) c k) 0 u

def termMatch (mem : Mem) (terminator : Ptr) (termLen : ℕ) (u : List UInt8) : ℕ :=
  Runs.run (fun k c ↦ forget (mem.load terminator termLen) c k) 0 u

/-- A character that does not match the target is looked for at its beginning. -/
theorem targetMatch_concat (u : List UInt8) (b : UInt8) :
    targetMatch mem target len (u ++ [b]) =
      restart (mem.load target len) b (targetMatch mem target len u) :=
  Runs.run_append ..

/-- A character that does not match the terminator is forgotten, the terminator with it. -/
theorem termMatch_concat (u : List UInt8) (b : UInt8) :
    termMatch mem terminator termLen (u ++ [b]) =
      forget (mem.load terminator termLen) b (termMatch mem terminator termLen u) :=
  Runs.run_append ..

/-- Neither string is matched. -/
def Unmatched (mem : Mem) (target : Ptr) (len : ℕ) (terminator : Ptr) (termLen : ℕ)
    (u : List UInt8) : Prop :=
  targetMatch mem target len u ≠ len ∧ (0 < termLen → termMatch mem terminator termLen u ≠ termLen)

/-- `findUntil` goes on to the end. -/
theorem findUntil_miss {c : ℤ} (hfirst : s.mem target ≠ 0) (hlen : 0 < len)
    (hbs : Delivers v s bs s₁) (hne : ∀ b ∈ bs, b ≠ 0)
    (hnone : ∀ u, u <+: bs → Unmatched s.mem target len terminator termLen u)
    (hend : Settles (timedRead v) s₁ c s') (hc : c ≤ 0) :
    Settles (findUntil v target len terminator termLen) s false s' := by
  refine .of_eq (findUntil_eq hfirst) ?_
  exact findUntilLoop_run hbs hne hlen id (fun u hu _ ↦ hnone u hu) (findUntilLoop_end hend hc)

/-- `findUntil` ends with the bytes that complete a match. -/
theorem findUntil_hit {r : Bool} (hfirst : s.mem target ≠ 0) (hlen : 0 < len)
    (hbs : Delivers v s bs s₁) (hne : ∀ b ∈ bs, b ≠ 0)
    (hbefore : ∀ u, u <+: bs → u ≠ bs → Unmatched s.mem target len terminator termLen u)
    (hr : if targetMatch s.mem target len bs = len then r = true
      else 0 < termLen ∧ termMatch s.mem terminator termLen bs = termLen ∧ r = false) :
    Settles (findUntil v target len terminator termLen) s r s₁ := by
  rcases List.eq_nil_or_concat bs with rfl | ⟨u, b, rfl⟩
  · have hzero : targetMatch s.mem target len [] ≠ len := hlen.ne
    rw [if_neg hzero] at hr
    exact absurd hr.2.1 hr.1.ne
  · rw [List.concat_eq_append] at hbs hne hbefore hr
    obtain ⟨s₂, hu, s₁', hb, rfl⟩ := delivers_append hbs
    have hmem := hu.keeps.1
    have hshort : ∀ w, w <+: u → w ≠ u ++ [b] := by
      rintro w hw rfl
      exact absurd hw.length_le (by simp)
    have hpre : ∀ w, w <+: u → Unmatched s.mem target len terminator termLen w := fun w hw ↦
      hbefore w (hw.trans (List.prefix_append ..)) (hshort w hw)
    -- neither was found before the last byte
    have hindex : targetMatch s.mem target len u < len := by
      refine Nat.lt_of_le_of_ne ?_ (hpre u List.prefix_rfl).1
      exact (take_run_restart _ u).1.trans_eq (s.mem.length_load ..)
    have hterm : 0 < termLen → termMatch s.mem terminator termLen u < termLen := by
      intro hpos
      refine Nat.lt_of_le_of_ne ?_ ((hpre u List.prefix_rfl).2 hpos)
      exact (run_forget_le _ u).trans_eq (s.mem.length_load ..)
    refine .of_eq (findUntil_eq hfirst) ?_
    refine findUntilLoop_run hu (fun c hc ↦ hne c (List.mem_append_left _ hc)) hlen id
      (fun w hw _ ↦ hpre w hw) ?_
    refine findUntilLoop_read hb (hne b (List.mem_append_right _ (List.mem_singleton_self b)))
      hindex hterm ?_
    rw [targetMatch_concat, termMatch_concat] at hr
    rw [hmem]
    split at hr
    next hfull =>
      rw [if_pos hfull]
      exact ⟨hr, rfl⟩
    next hfull =>
      rw [if_neg hfull, if_pos ⟨hr.1, hr.2.1⟩]
      exact ⟨hr.2.2, rfl⟩

/-- A pass, backwards. -/
theorem findUntilLoop_cases {k : ℕ} {r : Bool}
    (h : findUntilLoop v target len terminator termLen (k + 1) index termIndex s = some (r, s')) :
    ∃ c, ∃ s₁, timedRead v k s = some (c, s₁) ∧ (c ≤ 0 ∧ r = false ∨ 0 < c ∧
      (findUntilStep s₁.mem target len terminator termLen c index termIndex = .inl r ∧ s' = s₁ ∨
        ∃ i j, findUntilStep s₁.mem target len terminator termLen c index termIndex = .inr (i, j) ∧
          findUntilLoop v target len terminator termLen k i j s₁ = some (r, s'))) := by
  obtain ⟨⟨c, s₁⟩, hread, h⟩ := Option.bind_eq_some_iff.1 h
  refine ⟨c, s₁, hread, ?_⟩
  change (if c > 0 then _ else _ : StreamMethod σ Bool) s₁ = _ at h
  split at h
  next hc =>
    refine .inr ⟨hc, ?_⟩
    cases hstep : findUntilStep s₁.mem target len terminator termLen c index termIndex with
    | inl found =>
      simp only [hstep] at h
      cases h
      exact .inl ⟨rfl, rfl⟩
    | inr next =>
      simp only [hstep] at h
      exact .inr ⟨next.1, next.2, rfl, h⟩
  next hc =>
    cases h
    exact .inl ⟨Int.not_lt.1 hc, rfl⟩

/-- With enough fuel `timedRead` does what it did with this much. -/
theorem timedRead_returns {k : ℕ} {c : ℤ} (h : timedRead v k s = some (c, s₁)) :
    Settles (timedRead v) s c s₁ := by
  refine ⟨k, fun j hj ↦ ?_⟩
  rw [timedRead, timed_eq, Option.bind_eq_some_iff] at h ⊢
  exact h.imp fun t ht ↦ ⟨ht.1, timedLoop_mono hj ht.2⟩

/-- What `timedRead` returns is a byte or -1. -/
theorem timedRead_lt (hread : ∀ d c d', v.read d = some (c, d') → c < 256) {k : ℕ} {c : ℤ}
    (h : timedRead v k s = some (c, s₁)) : c < 256 := by
  rw [timedRead, timed_eq, Option.bind_eq_some_iff] at h
  obtain ⟨t, -, hloop⟩ := h
  rcases timedLoop_mem hloop with rfl | ⟨d, d', hd⟩
  · decide
  · exact hread d c d' hd

/-- What the passes read that find the target. -/
theorem findUntilLoop_sound (hread : ∀ d c d', v.read d = some (c, d') → c < 256)
    (hindex : index < len) (hterm : 0 < termLen → termIndex < termLen) {k : ℕ}
    (h : findUntilLoop v target len terminator termLen k index termIndex s = some (true, s')) :
    ∃ bs, Delivers v s bs s' ∧
      Runs.run (fun k c ↦ restart (s.mem.load target len) c k) index bs = len := by
  -- by induction on the fuel: each pass delivers one byte, and the index says what the bytes end
  -- with
  induction k generalizing s index termIndex with
  | zero => cases h
  | succ k ih =>
    obtain ⟨c, s₁, hc, ⟨-, hr⟩ | ⟨hpos, hpass⟩⟩ := findUntilLoop_cases h
    · exact absurd hr (by decide)
    obtain ⟨b, rfl⟩ : ∃ b : UInt8, c = b.toNat := by
      have hlt := timedRead_lt hread hc
      refine ⟨UInt8.ofNat c.toNat, ?_⟩
      rw [UInt8.toNat_ofNat']
      omega
    have hdelivered := timedRead_returns hc
    have hmem := (timed_keeps hdelivered).1
    rw [hmem, findUntilStep_eq s.mem target terminator b hindex hterm] at hpass
    split at hpass
    next hfull =>
      obtain ⟨-, rfl⟩ | ⟨i, j, hstep, -⟩ := hpass
      · exact ⟨[b], ⟨s', hdelivered, rfl⟩, hfull⟩
      · cases hstep
    next hfull =>
      split at hpass
      next =>
        obtain ⟨hstep, -⟩ | ⟨i, j, hstep, -⟩ := hpass <;> cases hstep
      next hended =>
        obtain ⟨hstep, -⟩ | ⟨i, j, hstep, hrest⟩ := hpass
        · cases hstep
        · cases hstep
          have hle := restart_le (s.mem.load target len) index b
          have hle' := forget_le (s.mem.load terminator termLen) termIndex b
          obtain ⟨bs, hbs, hrun⟩ := ih (by omega) (fun hpos ↦ by
            have hlt := hterm hpos
            have hne := fun heq ↦ hended ⟨hpos, heq⟩
            omega) hrest
          rw [hmem] at hrun
          exact ⟨b :: bs, ⟨s₁, hdelivered, hbs⟩, hrun⟩

/-- **What `findUntil` reports is there**: it returns true only when the bytes that it has read end
with the target. The target does not begin with a 0, for which the source returns true at once, and
has a length. -/
theorem findUntil_sound (hread : ∀ d c d', v.read d = some (c, d') → c < 256)
    (hfirst : s.mem target ≠ 0) (hlen : 0 < len) {k : ℕ}
    (h : findUntil v target len terminator termLen k s = some (true, s')) :
    ∃ bs, Delivers v s bs s' ∧ s.mem.load target len <:+ bs := by
  rw [findUntil_eq hfirst] at h
  obtain ⟨bs, hbs, hrun⟩ := findUntilLoop_sound hread hlen id h
  refine ⟨bs, hbs, ?_⟩
  have hfull := (take_run_restart (s.mem.load target len) bs).2
  rwa [hrun, List.take_of_length_le (s.mem.length_load ..).le] at hfull

/-- A single character is found. -/
theorem findUntil_sound_a : ∃ bs s',
    Delivers feed ⟨1000, 0, .still 0 [97], fun _ ↦ 97⟩ bs s' ∧ [97] <:+ bs := by
  have hread : ∀ d c d', feed.read d = some (c, d') → c < 256 := by
    intro d c d' h
    have hlt := Feed.look_lt List.tail d
    rwa [show d.look List.tail = (c, d') from Option.some.inj h] at hlt
  obtain ⟨s', hfound⟩ : ∃ s', findUntil feed .null 1 .null 0 2
      ⟨1000, 0, .still 0 [97], fun _ ↦ 97⟩ = some (true, s') :=
    ⟨_, rfl⟩
  obtain ⟨bs, hbs⟩ := findUntil_sound hread (by decide) (by decide) hfound
  exact ⟨bs, s', hbs⟩

/-- The target is matched when the bytes first end with it. -/
theorem targetMatch_eq_iff {u : List UInt8} (hp : Restartable (mem.load target len))
    (hbefore : ∀ t, t <+: u → t ≠ u → ¬mem.load target len <:+ t) :
    targetMatch mem target len u = len ↔ mem.load target len <:+ u := by
  have hlongest := longest_run (fun k c hk ↦ hp.restart_eq hk c) hbefore
  rw [← hlongest.eq_length_iff, mem.length_load]
  rfl

/-- The terminator is found where it occurs for the first time, if no part of it can be mistaken for
its beginning. -/
theorem termMatch_eq_iff {u : List UInt8} (hq : Forgettable (mem.load terminator termLen))
    (hbefore : ∀ t, t <+: u → t ≠ u → ¬mem.load terminator termLen <:+ t) :
    termMatch mem terminator termLen u = termLen ↔ mem.load terminator termLen <:+ u := by
  have hlongest := longest_run (fun k c hk ↦ hq.forget_eq hk c) hbefore
  rw [← hlongest.eq_length_iff, mem.length_load]
  rfl

/-- **`findUntil`, exactly.** With a target that is `Restartable` and a terminator that is
`Forgettable`, it ends with the bytes that complete the first of the two, and tells which; it finds
nothing if a 0 comes before, or no byte in time. The target does not begin with a 0 and has a
length, and no byte of `bs` is 0. -/
theorem findUntil_exact (hfirst : s.mem target ≠ 0) (hlen : 0 < len)
    (hp : Restartable (s.mem.load target len)) (hq : Forgettable (s.mem.load terminator termLen))
    (hbs : Delivers v s bs s₁) (hne : ∀ b ∈ bs, b ≠ 0)
    (hbefore : ∀ u, u <+: bs → u ≠ bs → ¬s.mem.load target len <:+ u ∧
      (0 < termLen → ¬s.mem.load terminator termLen <:+ u)) :
    (s.mem.load target len <:+ bs →
        Settles (findUntil v target len terminator termLen) s true s₁) ∧
      (¬s.mem.load target len <:+ bs → 0 < termLen → s.mem.load terminator termLen <:+ bs →
        Settles (findUntil v target len terminator termLen) s false s₁) ∧
      (¬s.mem.load target len <:+ bs → (0 < termLen → ¬s.mem.load terminator termLen <:+ bs) →
        ∀ c s', c ≤ 0 → Settles (timedRead v) s₁ c s' →
          Settles (findUntil v target len terminator termLen) s false s') := by
  -- what holds before the last byte holds before each of the others
  have hproper : ∀ {t u}, u <+: bs → t <+: u → t ≠ u → t <+: bs ∧ t ≠ bs := fun hu ht hne ↦
    ⟨ht.trans hu, fun heq ↦ hne (ht.eq_of_length_le (heq ▸ hu.length_le))⟩
  have htarget : ∀ u, u <+: bs → (targetMatch s.mem target len u = len ↔
      s.mem.load target len <:+ u) := fun u hu ↦
    targetMatch_eq_iff hp fun t ht hne ↦ (hbefore t (hproper hu ht hne).1 (hproper hu ht hne).2).1
  have hterm : ∀ u, u <+: bs → 0 < termLen → (termMatch s.mem terminator termLen u = termLen ↔
      s.mem.load terminator termLen <:+ u) := fun u hu hpos ↦
    termMatch_eq_iff hq fun t ht hne ↦
      (hbefore t (hproper hu ht hne).1 (hproper hu ht hne).2).2 hpos
  have hunmatched : ∀ u, u <+: bs → (Unmatched s.mem target len terminator termLen u ↔
      ¬s.mem.load target len <:+ u ∧ (0 < termLen → ¬s.mem.load terminator termLen <:+ u)) := by
    intro u hu
    exact and_congr (not_congr (htarget u hu))
      (forall_congr' fun hpos ↦ not_congr (hterm u hu hpos))
  have hbefore' : ∀ u, u <+: bs → u ≠ bs → Unmatched s.mem target len terminator termLen u :=
    fun u hu hne ↦ (hunmatched u hu).2 (hbefore u hu hne)
  refine ⟨fun hbs' ↦ ?_, fun hbs' hpos hended ↦ ?_, fun hbs' hterm' c s' hc hend ↦ ?_⟩
  · refine findUntil_hit hfirst hlen hbs hne hbefore' ?_
    rw [if_pos ((htarget bs List.prefix_rfl).2 hbs')]
  · refine findUntil_hit hfirst hlen hbs hne hbefore' ?_
    rw [if_neg (mt (htarget bs List.prefix_rfl).1 hbs')]
    exact ⟨hpos, (hterm bs List.prefix_rfl hpos).2 hended, rfl⟩
  -- neither was found, and nothing more comes
  · refine findUntil_miss hfirst hlen hbs hne (fun u hu ↦ ?_) hend hc
    by_cases hu' : u = bs
    · rw [hu']
      exact (hunmatched bs List.prefix_rfl).2 ⟨hbs', hterm'⟩
    · exact hbefore' u hu hu'

/-- The target `aba` is found over `abbaba`, and the terminator `c` has not come. -/
theorem findUntil_exact_aba : ∃ s₁, Settles (findUntil feed ⟨.caller, 0⟩ 3 ⟨.caller, 3⟩ 1)
    ⟨1000, 0, .still 0 [97, 98, 98, 97, 98, 97],
      Mem.storeArray (fun _ ↦ 0) ⟨.caller, 0⟩ [97, 98, 97, 99]⟩ true s₁ := by
  obtain ⟨s₁, -, hbs, -⟩ := delivers_still (s := ⟨1000, 0, .still 0 [97, 98, 98, 97, 98, 97],
    Mem.storeArray (fun _ ↦ 0) ⟨.caller, 0⟩ [97, 98, 97, 99]⟩) [97, 98, 98, 97, 98, 97]
    (q := []) rfl
  have hbefore : ∀ u ∈ List.inits [97, 98, 98, 97, 98, 97], u ≠ [97, 98, 98, 97, 98, 97] →
      ¬Mem.load (Mem.storeArray (fun _ ↦ 0) ⟨.caller, 0⟩ [97, 98, 97, 99]) ⟨.caller, 0⟩ 3 <:+ u ∧
        (0 < 1 → ¬Mem.load (Mem.storeArray (fun _ ↦ 0) ⟨.caller, 0⟩ [97, 98, 97, 99])
          ⟨.caller, 3⟩ 1 <:+ u) := by
    decide
  exact ⟨s₁, (findUntil_exact (v := feed) (by decide) (by decide) (by decide) (by decide) hbs
    (by simp) fun u hu ↦ hbefore u ((List.mem_inits ..).2 hu)).1 (by decide)⟩

end

/-! ### What `find` finds -/

/-- **`find` finds its target wherever it occurs** exactly if the target is `Restartable`. Neither
the target nor the bytes up to where it occurs hold a 0: `timedRead` returning 0 ends the loop as a
timeout does. -/
theorem find_complete_iff (mem : Mem) (target : Ptr) (hlen : 0 < len)
    (htarget : ∀ b ∈ mem.load target len, b ≠ 0) :
    (∀ (σ : Type) (v : StreamVirtuals σ) (s s₁ : StreamState σ) (bs : List UInt8), s.mem = mem →
        Delivers v s bs s₁ → (∀ b ∈ bs, b ≠ 0) → mem.load target len <:+: bs →
          ∃ s', Settles (find v target len) s true s') ↔
      Restartable (mem.load target len) := by
  have hlenp : (mem.load target len).length = len := mem.length_load ..
  have hfirst : mem target ≠ 0 := by
    refine htarget _ (List.mem_map.2 ⟨0, List.mem_range.2 hlen, ?_⟩)
    rw [Ptr.add_zero]
  constructor
  · intro h
    by_contra hp
    -- a target that is not restartable is missed in some text of its own characters, which a still
    -- device delivers
    obtain ⟨w, hw, hpw, hlost⟩ := exists_missed_restart hp
    have hne : ∀ b ∈ w, b ≠ 0 := fun b hb ↦ htarget b (hw hb)
    have hdevice : (⟨1000, 0, .still 0 w, mem⟩ : StreamState Feed).device = .still 0 (w ++ []) := by
      rw [List.append_nil]
    obtain ⟨s₁, now, hbs, hs₁⟩ := delivers_still w hdevice
    obtain ⟨s', hs'⟩ := h Feed feed _ s₁ w rfl hbs hne hpw.isInfix
    have htimeout : s₁.timeout = 1000 := hbs.keeps.2
    obtain ⟨s₂, hs₂⟩ := timesOut_still hs₁ (by rw [htimeout]; decide)
    have hfalse : Settles (find feed target len) ⟨1000, 0, .still 0 w, mem⟩ false s₂ :=
      findUntil_miss hfirst hlen hbs hne (fun u hu ↦
        ⟨fun heq ↦ absurd (hlost u hu) (by rw [hlenp]; exact heq.not_lt), fun hpos ↦
          absurd hpos (Nat.lt_irrefl 0)⟩) hs₂ (by decide)
    exact absurd (hs'.unique hfalse).1 (by decide)
  · rintro hp σ v s s₁ bs rfl hbs hne hinfix
    -- the bytes up to the first occurrence are enough
    obtain ⟨t, hsuffix, hpre⟩ := List.infix_iff_suffix_prefix.1 hinfix
    obtain ⟨u, ⟨rest, rfl⟩, hpu, hbefore⟩ := exists_first_prefix hpre hsuffix
    obtain ⟨s₂, hu, -⟩ := delivers_append hbs
    have hunmatched : ∀ t, t <+: u → t ≠ u → Unmatched s.mem target len Ptr.null 0 t := by
      refine fun t ht htu ↦ ⟨fun heq ↦ hbefore t ht htu ?_, fun hpos ↦ absurd hpos (Nat.lt_irrefl 0)⟩
      refine (targetMatch_eq_iff hp fun w hw hwt ↦ ?_).1 heq
      exact hbefore w (hw.trans ht) fun h ↦ hwt (hw.eq_of_length_le (h ▸ ht.length_le))
    refine ⟨s₂, findUntil_hit hfirst hlen hu (fun b hb ↦ hne b (List.mem_append_left _ hb))
      hunmatched ?_⟩
    rw [if_pos ((targetMatch_eq_iff hp hbefore).2 hpu)]

/-- The target `aa` is found over `baa`. -/
theorem find_complete_iff_aa : ∃ s',
    Settles (find feed .null 2) ⟨1000, 0, .still 0 [98, 97, 97], fun _ ↦ 97⟩ true s' := by
  obtain ⟨s₁, -, hbs, -⟩ := delivers_still (s := ⟨1000, 0, .still 0 [98, 97, 97], fun _ ↦ 97⟩)
    [98, 97, 97] (q := []) rfl
  exact (find_complete_iff (fun _ ↦ 97) .null (by decide) (by simp [Mem.load])).2 (by decide) Feed
    feed _ s₁ [98, 97, 97] rfl hbs (by simp) (by decide)

end Stream

end Vega
