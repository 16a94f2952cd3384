import Vega.Stream.Queued
import Vega.WString.Text

/-!
# Bytes and strings out of a stream

`readBytesUntil` puts the bytes that come into an array, as many as there are up to the length or
the terminator; a terminator is taken too, but one behind the last place is left in the stream
(`readBytesUntil_exact`). `readString` and `readStringUntil` take them as they come, and append one
after the other to a `String`; a byte that it has no room for is lost (`readString_kept`).

`taken` and `left` say it on the bytes alone: what goes into the array and what is left for the next
call. They are not a partition, because the terminator is in neither when it is met in time. For the
`String` methods the loop is proved with any answers of `realloc`, and a refused byte ends up in
neither the `String` nor the stream.
-/

namespace Vega

namespace Stream

section

variable {σ : Type} {v : StreamVirtuals σ} {Q : StreamState σ → List UInt8 → Prop}
  {s : StreamState σ} {bs : List UInt8} {n : ℕ}

/-! ### Into an array -/

/-- The bytes before one that stops, or as many as there is room for. -/
def taken (stop : UInt8 → Bool) (n : ℕ) (bs : List UInt8) : List UInt8 :=
  (bs.take n).takeWhile fun b ↦ !stop b

/-- What is left in the stream then: a byte that stops is taken if there was room for it. -/
def left (stop : UInt8 → Bool) (n : ℕ) (bs : List UInt8) : List UInt8 :=
  bs.drop (min n ((taken stop n bs).length + 1))

theorem taken_cons (stop : UInt8 → Bool) (n : ℕ) (b : UInt8) (bs : List UInt8) :
    taken stop (n + 1) (b :: bs) = if stop b then [] else b :: taken stop n bs := by
  rw [taken, List.take_succ_cons, List.takeWhile_cons]
  cases stop b <;> rfl

theorem left_cons (stop : UInt8 → Bool) (n : ℕ) (b : UInt8) (bs : List UInt8) :
    left stop (n + 1) (b :: bs) = if stop b then bs else left stop n bs := by
  rw [left, taken_cons]
  cases stop b with
  | true =>
    show (b :: bs).drop (min (n + 1) 1) = bs
    rw [Nat.min_eq_right (Nat.succ_le_succ (Nat.zero_le n))]
    rfl
  | false =>
    show (b :: bs).drop (min (n + 1) ((taken stop n bs).length + 1 + 1)) = left stop n bs
    rw [Nat.add_min_add_right]
    rfl

section

variable {stop : ℤ → Prop} [DecidablePred stop] {length count : ℕ} {buffer : Ptr} {c : ℤ}
  {s₁ s' : StreamState σ}

/-- A pass that ends the loop. -/
theorem readLoop_stop (hroom : count < length) (hread : Settles (timedRead v) s c s')
    (hc : c < 0 ∨ stop c) : Settles (readLoop v stop length · buffer count) s count s' := by
  refine .step ?_
  simp only [readLoop, if_pos hroom]
  refine .bind hread ?_
  simp only [if_pos hc]
  exact .pure count s'

/-- A pass that stores a byte. -/
theorem readLoop_store (hroom : count < length) {b : UInt8}
    (hread : Settles (timedRead v) s b.toNat s₁) (hb : ¬stop b.toNat)
    (h : Settles (readLoop v stop length · (buffer.add 1) (count + 1))
      { s₁ with mem := s₁.mem.store buffer b } n s') :
    Settles (readLoop v stop length · buffer count) s n s' := by
  have hbyte : ¬((b.toNat : ℤ) < 0 ∨ stop b.toNat) :=
    not_or.2 ⟨Int.not_lt.2 (Int.natCast_nonneg _), hb⟩
  have hstore : UInt8.ofNat (b.toNat : ℤ).toNat = b := by
    rw [Int.toNat_natCast, UInt8.ofNat_toNat]
  refine .step ?_
  simp only [readLoop, if_pos hroom]
  refine .bind hread (.of_eq (fun k ↦ ?_) h)
  rw [if_neg hbyte, hstore]
  rfl

end

/-- The loop, with room for `n` more bytes. -/
theorem Queued.readLoop (hQ : Queued v Q) (stop : ℤ → Prop) [DecidablePred stop] {length : ℕ}
    (buffer : Ptr) {count : ℕ} (hn : count + n = length) (h : Q s bs) :
    ∃ s', Settles (Stream.readLoop v stop length · buffer count) s
        (count + (taken (fun b ↦ stop b.toNat) n bs).length) s' ∧
      Q s' (left (fun b ↦ stop b.toNat) n bs) ∧
      s'.mem = s.mem.storeArray buffer (taken (fun b ↦ stop b.toNat) n bs) := by
  induction n generalizing s bs buffer count with
  | zero =>
    refine ⟨s, .step (.of_eq (fun k ↦ ?_) (.pure _ s)), ?_, rfl⟩
    · rw [Stream.readLoop, if_neg (by omega)]
      rfl
    · rw [left, Nat.zero_min]
      exact h
  | succ n ih =>
    have hroom : count < length := by omega
    cases bs with
    | nil =>
      obtain ⟨s', hs', h'⟩ := hQ.read_nil h
      rw [left, List.drop_nil]
      exact ⟨s', readLoop_stop hroom hs' (.inl (by decide)), h', (timed_keeps hs').1⟩
    | cons b bs =>
      obtain ⟨s₁, hs₁, h₁⟩ := hQ.read h
      rw [taken_cons, left_cons]
      by_cases hstop : stop b.toNat
      · rw [decide_eq_true hstop, if_pos rfl, if_pos rfl]
        exact ⟨s₁, readLoop_stop hroom hs₁ (.inr hstop), h₁, (timed_keeps hs₁).1⟩
      · rw [decide_eq_false hstop, if_neg Bool.false_ne_true, if_neg Bool.false_ne_true]
        have hstored := hQ.store h₁ (s₁.mem.store buffer b)
        obtain ⟨s', hs', h', hmem⟩ := ih (buffer.add 1) (by omega : count + 1 + n = length) hstored
        rw [List.length_cons, Nat.add_comm _ 1, ← Nat.add_assoc]
        refine ⟨s', readLoop_store hroom hs₁ hstop hs', h', ?_⟩
        rw [hmem, (timed_keeps hs₁).1]
        rfl

/-- **`readBytesUntil`, exactly**, whatever is in the stream. -/
theorem readBytesUntil_exact (hQ : Queued v Q) (h : Q s bs) (terminator : UInt8) (buffer : Ptr)
    (length : ℕ) :
    ∃ s', Settles (readBytesUntil v terminator buffer length) s
        (taken (· = terminator) length bs).length s' ∧
      Q s' (left (· = terminator) length bs) ∧
      s'.mem = s.mem.storeArray buffer (taken (· = terminator) length bs) := by
  by_cases hlength : length < 1
  · obtain rfl : length = 0 := by omega
    refine ⟨s, .of_eq (fun k ↦ ?_) (.pure 0 s), ?_, rfl⟩
    · rw [readBytesUntil, if_pos hlength]
    · rw [left, Nat.zero_min]
      exact h
  · obtain ⟨s', hs', h', hmem⟩ :=
      hQ.readLoop (fun c ↦ c = terminator.toNat) buffer (Nat.zero_add length) h
    have hstop : (fun b : UInt8 ↦ decide ((b.toNat : ℤ) = terminator.toNat)) =
        (fun b : UInt8 ↦ decide (b = terminator)) :=
      funext fun b ↦ decide_eq_decide.2 (Nat.cast_inj.trans UInt8.toNat_inj)
    rw [hstop, Nat.zero_add] at hs'
    rw [hstop] at h' hmem
    refine ⟨s', .of_eq (fun k ↦ ?_) hs', h', hmem⟩
    rw [readBytesUntil, if_neg hlength]

/-- Two bytes before a comma, and one behind it that stays. -/
theorem readBytesUntil_exact_comma : ∃ s', Settles (readBytesUntil feed 44 ⟨.caller, 0⟩ 8)
      ⟨1000, 0, .still 0 [49, 50, 44, 51], fun _ ↦ 0⟩ 2 s' ∧
    Feed.Prompt s'.timeout s'.device [51] ∧
      s'.mem = Mem.storeArray (fun _ ↦ 0) ⟨.caller, 0⟩ [49, 50] := by
  have hprompt : Feed.Prompt 1000 (.still 0 [49, 50, 44, 51]) [49, 50, 44, 51] :=
    Feed.prompt_still 0 [49, 50, 44, 51] (by decide) (by decide)
  exact readBytesUntil_exact queued_prompt
    (s := ⟨1000, 0, .still 0 [49, 50, 44, 51], fun _ ↦ 0⟩) hprompt 44 ⟨.caller, 0⟩ 8

end

/-! ### Into a `String` -/

/-- The loop of `readString` and of `readStringUntil`, with what `realloc` answers; the latter also
stops at its terminator. -/
def readStringLoop {σ : Type} (v : StreamVirtuals σ) (stop : ℤ → Prop) [DecidablePred stop] :
    ℕ → (ℕ → Grant) → ℤ → StringObject → StreamMethod σ StringObject
  | 0, _, _, _ => failure
  | passes + 1, rooms, c, ret =>
    if c ≥ 0 ∧ ¬stop c then do
      let r ← StateT.lift (ret.concatChar (rooms 0) (UInt8.ofNat c.toNat))
      let c ← timedRead v passes
      readStringLoop v stop passes (fun n ↦ rooms (n + 1)) c r.2
    else return ret

/-- `readString` and `readStringUntil` -/
def readStringStop {σ : Type} (v : StreamVirtuals σ) (stop : ℤ → Prop) [DecidablePred stop]
    (rooms : ℕ → Grant) (passes : ℕ) : StreamMethod σ StringObject := do
  let ret ← StateT.lift (StringObject.ofChars (rooms 0) [])
  let c ← timedRead v passes
  readStringLoop v stop passes (fun n ↦ rooms (n + 1)) c ret

/-- `readString` -/
def readString {σ : Type} (v : StreamVirtuals σ) (rooms : ℕ → Grant) (passes : ℕ) :
    StreamMethod σ StringObject :=
  readStringStop v (fun _ ↦ False) rooms passes

/-- `readStringUntil` -/
def readStringUntil {σ : Type} (v : StreamVirtuals σ) (terminator : UInt8) (rooms : ℕ → Grant)
    (passes : ℕ) : StreamMethod σ StringObject :=
  readStringStop v (fun c ↦ c = terminator.toNat) rooms passes

section

open StringObject

variable {σ : Type} {v : StreamVirtuals σ} {Q : StreamState σ → List UInt8 → Prop}
  {s s' : StreamState σ} {bs text : List UInt8} {stop : ℤ → Prop} [DecidablePred stop]
  {ret ret' : StringObject}

/-- The bytes before one that stops. -/
def before (stop : ℤ → Prop) [DecidablePred stop] (bs : List UInt8) : List UInt8 :=
  bs.takeWhile fun b ↦ ¬stop b.toNat

/-- The bytes behind it. -/
def behind (stop : ℤ → Prop) [DecidablePred stop] (bs : List UInt8) : List UInt8 :=
  (bs.dropWhile fun b ↦ ¬stop b.toNat).tail

theorem readStringLoop_stop {c : ℤ} (rooms : ℕ → Grant) (ret : StringObject) (s : StreamState σ)
    (hc : ¬(c ≥ 0 ∧ ¬stop c)) : Settles (readStringLoop v stop · rooms c ret) s ret s := by
  refine .step ?_
  simp only [readStringLoop, if_neg hc]
  exact .pure ret s

theorem readStringLoop_append {b : UInt8} {rooms : ℕ → Grant} {ok : Bool} {ret₁ : StringObject}
    (hb : ¬stop b.toNat) (hconcat : ret.concatChar (rooms 0) b = some (ok, ret₁))
    (h : Settles (fun k ↦ timedRead v k >>= fun c ↦
      readStringLoop v stop k (fun n ↦ rooms (n + 1)) c ret₁) s ret' s') :
    Settles (readStringLoop v stop · rooms b.toNat ret) s ret' s' := by
  have hgo : (b.toNat : ℤ) ≥ 0 ∧ ¬stop b.toNat := ⟨Int.natCast_nonneg _, hb⟩
  have hchar : UInt8.ofNat (b.toNat : ℤ).toNat = b := by
    rw [Int.toNat_natCast, UInt8.ofNat_toNat]
  refine .step ?_
  simp only [readStringLoop, if_pos hgo, hchar, hconcat]
  exact h

/-- One byte after the other is read and appended, or lost. -/
theorem Queued.readStringLoop (hQ : Queued v Q) (h : Q s bs) (hret : Holds ret text)
    (hzero : 0 ∉ before stop bs) (rooms : ℕ → Grant) :
    ∃ s' ret' kept, Settles (fun k ↦ timedRead v k >>= fun c ↦
        Stream.readStringLoop v stop k rooms c ret) s ret' s' ∧
      Q s' (behind stop bs) ∧ Holds ret' (text ++ kept) ∧ kept.Sublist (before stop bs) ∧
      ((∀ n, rooms n ≠ none) → (text ++ before stop bs).length < 2 ^ 31 → kept = before stop bs) := by
  induction bs generalizing s ret text rooms with
  | nil =>
    obtain ⟨s', hs', h'⟩ := hQ.read_nil h
    refine ⟨s', ret, [], .bind hs' (readStringLoop_stop rooms ret s' fun hc ↦ ?_), h', ?_,
      List.Sublist.refl [], fun _ _ ↦ rfl⟩
    · exact absurd hc.1 (by decide)
    · rwa [List.append_nil]
  | cons b bs ih =>
    obtain ⟨s₁, hs₁, h₁⟩ := hQ.read h
    by_cases hb : stop b.toNat
    · have hbefore : before stop (b :: bs) = [] := List.takeWhile_cons_of_neg (by simpa using hb)
      have hbehind : behind stop (b :: bs) = bs :=
        congrArg List.tail (List.dropWhile_cons_of_neg (by simpa using hb))
      rw [hbefore, hbehind]
      refine ⟨s₁, ret, [], .bind hs₁ (readStringLoop_stop rooms ret s₁ fun hc ↦ hc.2 hb), h₁, ?_,
        List.Sublist.refl [], fun _ _ ↦ rfl⟩
      rwa [List.append_nil]
    · have hbefore : before stop (b :: bs) = b :: before stop bs :=
        List.takeWhile_cons_of_pos (by simpa using hb)
      have hbehind : behind stop (b :: bs) = behind stop bs :=
        congrArg List.tail (List.dropWhile_cons_of_pos (by simpa using hb))
      rw [hbefore] at hzero ⊢
      obtain ⟨hb0, hzero⟩ := not_or.1 (mt List.mem_cons.2 hzero)
      have hcs : 0 ∉ [b] := fun hmem ↦ hb0 (List.mem_singleton.1 hmem)
      rw [hbehind]
      -- a byte that is refused is lost, and the loop goes on
      rcases concatBlock_spec hret (rooms 0) hcs (by simp) [] with
        ⟨ret₁, hconcat, hret₁⟩ | ⟨hconcat, hrefused⟩
      · obtain ⟨s', ret', kept, hs', h', hret', hkept, hall⟩ :=
          ih h₁ hret₁ hzero fun n ↦ rooms (n + 1)
        refine ⟨s', ret', b :: kept, .bind hs₁ (readStringLoop_append hb hconcat hs'), h', ?_,
          hkept.cons_cons b, fun hrooms hlen ↦ ?_⟩
        · rwa [List.append_assoc] at hret'
        · rw [hall (fun n ↦ hrooms (n + 1)) (by
            simp only [List.length_append, List.length_cons, List.length_nil] at hlen ⊢
            omega)]
      · obtain ⟨s', ret', kept, hs', h', hret', hkept, hall⟩ :=
          ih h₁ hret hzero fun n ↦ rooms (n + 1)
        refine ⟨s', ret', kept, .bind hs₁ (readStringLoop_append hb hconcat hs'), h', hret',
          hkept.cons b, fun hrooms hlen ↦ ?_⟩
        rcases hrefused with hnone | hlarge
        · exact absurd hnone (hrooms 0)
        · simp only [List.length_append, List.length_cons, List.length_nil] at hlen hlarge
          omega

/-- **What is read into a `String`**: all bytes before the one that stops, in their order, but for
those that there was no room for; nothing is lost if `realloc` refuses nothing. -/
theorem readString_kept (hQ : Queued v Q) (h : Q s bs) (hzero : 0 ∉ before stop bs)
    (rooms : ℕ → Grant) :
    ∃ s' ret' kept, Settles (readStringStop v stop rooms) s ret' s' ∧ Q s' (behind stop bs) ∧
      Holds ret' kept ∧ kept.Sublist (before stop bs) ∧
      ((∀ n, rooms n ≠ none) → (before stop bs).length < 2 ^ 31 → kept = before stop bs) := by
  obtain ⟨ret, hret, hholds⟩ : ∃ ret, StringObject.ofChars (rooms 0) [] = some ret ∧
      Holds ret [] := by
    rcases copy_spec .invalid (rooms 0) List.not_mem_nil with ⟨ret, hcopy, hret⟩ | ⟨hcopy, -⟩
    · exact ⟨ret, hcopy, hret⟩
    · exact ⟨StringObject.invalid, hcopy, .invalid⟩
  obtain ⟨s', ret', kept, hs', h', hret', hkept, hall⟩ :=
    hQ.readStringLoop h hholds hzero fun n ↦ rooms (n + 1)
  rw [List.nil_append] at hret' hall
  refine ⟨s', ret', kept, .of_eq (fun k ↦ ?_) hs', h', hret', hkept, fun hrooms ↦
    hall fun n ↦ hrooms (n + 1)⟩
  show (StateT.lift (StringObject.ofChars (rooms 0) []) >>= _ : StreamMethod σ StringObject) s = _
  rw [hret]
  rfl

/-- Two bytes before a line end are kept, with memory for them. -/
theorem readString_kept_hi : ∃ s' ret',
    Settles (readStringStop feed (fun c ↦ c = (10 : UInt8).toNat) fun _ ↦ some fun _ ↦ 1)
      ⟨1000, 0, .still 0 [104, 105, 10, 33], fun _ ↦ 0⟩ ret' s' ∧
    Feed.Prompt s'.timeout s'.device [33] ∧ Holds ret' [104, 105] := by
  have hprompt : Feed.Prompt 1000 (.still 0 [104, 105, 10, 33]) [104, 105, 10, 33] :=
    Feed.prompt_still 0 [104, 105, 10, 33] (by decide) (by decide)
  have hzero : 0 ∉ before (fun c ↦ c = (10 : UInt8).toNat) [104, 105, 10, 33] := by decide
  obtain ⟨s', ret', kept, hs', h', hret', -, hall⟩ := readString_kept queued_prompt
    (s := ⟨1000, 0, .still 0 [104, 105, 10, 33], fun _ ↦ 0⟩) hprompt hzero fun _ ↦ some fun _ ↦ 1
  rw [hall (fun _ ↦ Option.some_ne_none _) (by decide)] at hret'
  exact ⟨s', ret', hs', h', hret'⟩

end

end Stream

end Vega
