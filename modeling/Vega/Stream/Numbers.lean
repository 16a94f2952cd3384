import Vega.Stream.Queued
import Vega.Usb.Print

/-!
# Numbers in a stream

`parseInt` skips what cannot begin a number, and takes the longest run of digits after it; `parsed`
is what it gives and leaves on the bytes of a stream, whatever they are (`parseInt_exact`). What
`println` writes for one `long` after the other is read back by one call after the other
(`parse_println`).

`parseInt` looks at a character before it takes it, so the character that ends a number is still
there for the next call; this is why the numbers of consecutive calls can be read off the bytes with
`parsed` alone. The arithmetic is on integers: `ofInt_addDigit` says that a number that left the
range of `long` on the way wraps as the source's does.

The printing side is the model of `Vega.Usb.Print` with a queue for a device (`keepPrint`), so that
the round trip is between two translations of the source and not between a numeral and itself.
-/

namespace Vega

namespace Stream

/-! ### The number of a text -/

/-- A character that a number can begin with. -/
def Begins (b : UInt8) : Prop := b = 45 ∨ IsDigit b.toNat

/-- A character that a number goes on with. -/
def GoesOn (skip b : UInt8) : Prop := IsDigit b.toNat ∨ b = skip

instance (b : UInt8) : Decidable (Begins b) := inferInstanceAs (Decidable (_ ∨ _))

instance (skip b : UInt8) : Decidable (GoesOn skip b) := inferInstanceAs (Decidable (_ ∨ _))

/-- The number with one character more. -/
def addDigit (skip : UInt8) (n : ℤ) (b : UInt8) : ℤ :=
  if b ≠ skip ∧ IsDigit b.toNat then n * 10 + (b.toNat - 48) else n

/-- What `parseInt` gives for the bytes of a stream, and the bytes it leaves. -/
def parsed (skip : UInt8) (bs : List UInt8) : ℤ × List UInt8 :=
  match bs.dropWhile fun b ↦ ¬Begins b with
  | [] => (0, [])
  | b :: bs =>
    let n := (b :: bs.takeWhile (GoesOn skip ·)).foldl (addDigit skip) 0
    (if b = 45 ∧ skip ≠ 45 then -n else n, bs.dropWhile (GoesOn skip ·))

/-! ### `parseInt` -/

section

variable {σ : Type} {v : StreamVirtuals σ} {Q : StreamState σ → List UInt8 → Prop}
  {s s₁ s₂ s' : StreamState σ} {b : UInt8} {bs : List UInt8} {skip : UInt8}

theorem eq_skip_iff (b skip : UInt8) : (b.toNat : ℤ) = skip.toNat ↔ b = skip := by
  rw [Nat.cast_inj, UInt8.toNat_inj]

theorem eq_minus_iff (b : UInt8) : (b.toNat : ℤ) = 45 ↔ b = 45 := eq_skip_iff b 45

/-- A character that no number begins with is taken. -/
theorem peekNextDigit_skip {c a : ℤ} (hpeek : Settles (timedPeek v) s b.toNat s₁)
    (hb : ¬Begins b) (hread : call v.read s₁ = some (a, s₂))
    (h : Settles (peekNextDigit v) s₂ c s') : Settles (peekNextDigit v) s c s' := by
  have htake : Settles (fun k ↦ call v.read >>= fun _ ↦ peekNextDigit v k) s₁ c s' :=
    .bind (.of_forall fun _ ↦ hread) h
  refine .step (.bind hpeek (.of_eq (fun k ↦ ?_) htake))
  rw [if_neg (Int.not_lt.2 (Int.natCast_nonneg _)),
    if_neg (fun hc ↦ hb (.inl ((eq_minus_iff b).1 hc))), if_neg (fun hc ↦ hb (.inr hc))]

/-- One that a number can begin with is shown. -/
theorem peekNextDigit_stop {c : ℤ} (hpeek : Settles (timedPeek v) s c s')
    (hc : c < 0 ∨ c = 45 ∨ IsDigit c) : Settles (peekNextDigit v) s c s' := by
  refine .step (.bind hpeek ?_)
  split
  · exact .pure c s'
  split
  · exact .pure c s'
  split
  · exact .pure c s'
  next hneg hminus hdigit =>
    exact absurd hc (not_or.2 ⟨hneg, not_or.2 ⟨hminus, hdigit⟩⟩)

/-- `peekNextDigit` stops where a number can begin. -/
theorem Queued.peekNextDigit (hQ : Queued v Q) (h : Q s bs) :
    (bs.dropWhile (fun b ↦ ¬Begins b) = [] →
        ∃ s', Settles (peekNextDigit v) s (-1) s' ∧ Q s' []) ∧
      ∀ b rest, bs.dropWhile (fun b ↦ ¬Begins b) = b :: rest →
        ∃ s₁, Settles (peekNextDigit v) s b.toNat s₁ ∧
          ∃ s₂, call v.read s₁ = some ((b.toNat : ℤ), s₂) ∧ Q s₂ rest := by
  induction bs generalizing s with
  | nil =>
    refine ⟨fun _ ↦ ?_, fun b rest hnil ↦ absurd hnil.symm (List.cons_ne_nil b rest)⟩
    obtain ⟨s', hs', h'⟩ := hQ.peek_nil h
    exact ⟨s', peekNextDigit_stop hs' (.inl (by decide)), h'⟩
  | cons b bs ih =>
    obtain ⟨s₁, hpeek, -, s₂, hread, h₂⟩ := hQ.peek h
    by_cases hb : Begins b
    · rw [List.dropWhile_cons_of_neg (by simpa using hb)]
      refine ⟨fun hnil ↦ absurd hnil (List.cons_ne_nil b bs), ?_⟩
      rintro _ _ ⟨⟩
      have hstop := peekNextDigit_stop hpeek (.inr (hb.imp_left (eq_minus_iff b).2))
      exact ⟨s₁, hstop, s₂, hread, h₂⟩
    · rw [List.dropWhile_cons_of_pos (by simpa using hb)]
      obtain ⟨hnone, hsome⟩ := ih h₂
      refine ⟨fun hnil ↦ ?_, fun b' rest hrest ↦ ?_⟩
      · obtain ⟨s', hs', h'⟩ := hnone hnil
        exact ⟨s', peekNextDigit_skip hpeek hb hread hs', h'⟩
      · obtain ⟨s', hs', h'⟩ := hsome b' rest hrest
        exact ⟨s', peekNextDigit_skip hpeek hb hread hs', h'⟩

/-- The value with one character more. -/
theorem ofInt_addDigit (n : ℤ) :
    (if (b.toNat : ℤ) = skip.toNat then Int32.ofInt n
      else if (b.toNat : ℤ) = 45 then Int32.ofInt n
      else if IsDigit b.toNat then Int32.ofInt n * 10 + Int32.ofInt b.toNat - 48
      else Int32.ofInt n) = Int32.ofInt (addDigit skip n b) := by
  rw [addDigit]
  by_cases hskip : b = skip
  · rw [if_pos ((eq_skip_iff b skip).2 hskip), if_neg fun h ↦ h.1 hskip]
  · rw [if_neg fun h ↦ hskip ((eq_skip_iff b skip).1 h)]
    by_cases hdigit : IsDigit b.toNat
    · have hminus : ¬(b.toNat : ℤ) = 45 := by
        have hlow := hdigit.1
        omega
      rw [if_neg hminus, if_pos hdigit, if_pos ⟨hskip, hdigit⟩]
      simp only [Int32.ofInt_add, Int32.ofInt_mul, Int32.ofInt_sub, Int32.sub_eq_add_neg,
        Int32.add_assoc]
      rfl
    · rw [if_neg hdigit, ite_self, if_neg fun h ↦ hdigit h.2]

/-- **A pass of `parseInt`.** -/
theorem parseIntLoop_step {a c : ℤ} {r : Int32} {n : ℤ} {isNegative : Bool}
    (hread : call v.read s = some (a, s₁)) (hpeek : Settles (timedPeek v) s₁ c s₂)
    (h : if IsDigit c ∨ c = skip.toNat then
        Settles (parseIntLoop v skip.toNat · c (isNegative || (b = 45 ∧ skip ≠ 45))
          (Int32.ofInt (addDigit skip n b))) s₂ r s'
      else s' = s₂ ∧ r = Int32.ofInt (if isNegative || (b = 45 ∧ skip ≠ 45) then
        -addDigit skip n b else addDigit skip n b)) :
    Settles (parseIntLoop v skip.toNat · b.toNat isNegative (Int32.ofInt n)) s r s' := by
  have hsign : (if (b.toNat : ℤ) = skip.toNat then isNegative
      else if (b.toNat : ℤ) = 45 then true else isNegative) =
        (isNegative || (b = 45 ∧ skip ≠ 45)) := by
    simp only [eq_minus_iff, eq_skip_iff]
    split
    next heq => simp [heq]
    next hne =>
      split
      next h45 => simp [h45, h45 ▸ Ne.symm hne]
      next h45 => simp [h45]
  refine .step (.bind (.of_forall fun _ ↦ hread) (.bind hpeek ?_))
  rw [ofInt_addDigit, hsign]
  split at h
  next hc =>
    refine .of_eq (fun k ↦ ?_) h
    rw [if_pos hc]
  next hc =>
    obtain ⟨rfl, rfl⟩ := h
    refine .of_eq (fun k ↦ ?_) (.pure _ s')
    rw [if_neg hc]
    split <;> simp

/-- The passes of `parseInt` take the longest run that goes on. -/
theorem Queued.parseIntLoop (hQ : Queued v Q) (skip b : UInt8) (n : ℤ) (isNegative : Bool) {a : ℤ}
    (hread : call v.read s = some (a, s₁)) (h : Q s₁ bs) :
    ∃ s', Settles (parseIntLoop v skip.toNat · b.toNat isNegative (Int32.ofInt n)) s
        (Int32.ofInt (if isNegative || (b = 45 ∧ skip ≠ 45) then
          -(b :: bs.takeWhile (GoesOn skip ·)).foldl (addDigit skip) n
          else (b :: bs.takeWhile (GoesOn skip ·)).foldl (addDigit skip) n)) s' ∧
      Q s' (bs.dropWhile (GoesOn skip ·)) := by
  induction bs generalizing s s₁ a b n isNegative with
  | nil =>
    obtain ⟨s', hs', h'⟩ := hQ.peek_nil h
    refine ⟨s', parseIntLoop_step hread hs' ?_, h'⟩
    rw [if_neg]
    · exact ⟨rfl, rfl⟩
    · rintro (hdigit | hskip)
      · exact absurd hdigit (by decide)
      · exact absurd (Int.natCast_nonneg skip.toNat) (hskip ▸ by decide)
  | cons c bs ih =>
    obtain ⟨s₂, hpeek, h₂, s₃, hread', h₃⟩ := hQ.peek h
    have hgoes : IsDigit c.toNat ∨ (c.toNat : ℤ) = skip.toNat ↔ GoesOn skip c := by
      rw [GoesOn, eq_skip_iff]
    by_cases hc : GoesOn skip c
    -- a minus sign counts as the first character only
    · have hsign : (isNegative || (b = 45 ∧ skip ≠ 45) || (c = 45 ∧ skip ≠ 45)) =
          (isNegative || (b = 45 ∧ skip ≠ 45) : Bool) := by
        have hplain : ¬(c = 45 ∧ skip ≠ 45) := by
          rintro ⟨rfl, hskip⟩
          rcases hc with hdigit | heq
          · exact absurd hdigit (by decide)
          · exact hskip heq.symm
        rw [decide_eq_false hplain, Bool.or_false]
      obtain ⟨s', hs', h'⟩ := ih c (addDigit skip n b)
        (isNegative || (b = 45 ∧ skip ≠ 45)) hread' h₃
      rw [hsign] at hs'
      rw [List.takeWhile_cons_of_pos (by simpa using hc),
        List.dropWhile_cons_of_pos (by simpa using hc)]
      refine ⟨s', parseIntLoop_step hread hpeek ?_, h'⟩
      rw [if_pos (hgoes.2 hc)]
      exact hs'
    · rw [List.takeWhile_cons_of_neg (by simpa using hc),
        List.dropWhile_cons_of_neg (by simpa using hc)]
      refine ⟨s₂, parseIntLoop_step hread hpeek ?_, h₂⟩
      rw [if_neg (mt hgoes.1 hc)]
      exact ⟨rfl, rfl⟩

/-- **`parseInt`, exactly**, whatever is in the stream. -/
theorem parseInt_exact (hQ : Queued v Q) (skip : UInt8) (h : Q s bs) :
    ∃ s', Settles (parseIntSkip v skip.toNat) s (Int32.ofInt (parsed skip bs).1) s' ∧
      Q s' (parsed skip bs).2 := by
  obtain ⟨hnone, hsome⟩ := hQ.peekNextDigit h
  rw [parsed]
  cases hbs : bs.dropWhile fun b ↦ ¬Begins b with
  | nil =>
    obtain ⟨s', hs', h'⟩ := hnone hbs
    exact ⟨s', .bind hs' (.pure _ s'), h'⟩
  | cons b rest =>
    obtain ⟨s₁, hs₁, s₂, hread, h₂⟩ := hsome b rest hbs
    obtain ⟨s', hs', h'⟩ := hQ.parseIntLoop skip b 0 false hread h₂
    simp only [Bool.false_or, decide_eq_true_eq] at hs'
    refine ⟨s', .bind hs₁ (.of_eq (fun k ↦ ?_) hs'), h'⟩
    rw [if_neg (Int.not_lt.2 (Int.natCast_nonneg _))]
    rfl

-- "a-1,2b3", where a comma is skipped
example : parsed 44 [97, 45, 49, 44, 50, 98, 51] = (-12, [98, 51]) := by decide

end

/-! ### What is printed -/

section

variable {b skip : UInt8} {junk rest : List UInt8}

theorem toNat_digitChar : ∀ d < 10, (Print.digitChar (UInt8.ofNat d)).toNat = 48 + d := by
  decide

/-- A character that was printed for a digit is read as that digit. -/
theorem addDigit_digitChar (hskip : ¬Begins skip) (n : ℤ) {d : ℕ} (hd : d < 10) :
    addDigit skip n (Print.digitChar (UInt8.ofNat d)) = n * 10 + d := by
  have htoNat := toNat_digitChar d hd
  have hdigit : IsDigit (Print.digitChar (UInt8.ofNat d)).toNat := by
    rw [htoNat]
    constructor <;> push_cast <;> omega
  have hne : Print.digitChar (UInt8.ofNat d) ≠ skip := fun heq ↦ hskip (.inr (heq ▸ hdigit))
  rw [addDigit, if_pos ⟨hne, hdigit⟩, htoNat]
  push_cast
  ring

/-- A numeral is made of digits. -/
theorem isDigit_of_mem_numeral {n : ℕ} (h : b ∈ numeral n 10) : IsDigit b.toNat := by
  rw [numeral] at h
  split at h
  · rw [List.mem_singleton.1 h]
    decide
  · obtain ⟨d, hd, rfl⟩ := List.mem_map.1 h
    have hlt := Nat.digits_lt_base (by decide) (List.mem_reverse.1 hd)
    rw [toNat_digitChar _ hlt]
    constructor <;> push_cast <;> omega

theorem numeral_ne_nil (n : ℕ) : numeral n 10 ≠ [] := by
  rw [numeral]
  split
  · exact List.cons_ne_nil 48 []
  next hn => simpa [Nat.digits_eq_nil_iff_eq_zero] using hn

/-- The digits of a numeral give the number. -/
theorem foldl_numeral (hskip : ¬Begins skip) (n : ℕ) :
    (numeral n 10).foldl (addDigit skip) 0 = n := by
  rw [numeral]
  split
  next hn =>
    have hzero := addDigit_digitChar hskip 0 (d := 0) (by decide)
    rw [hn]
    exact hzero
  next hn =>
    have hdigits : ∀ ds : List ℕ, (∀ d ∈ ds, d < 10) →
        (ds.reverse.map fun d ↦ Print.digitChar (UInt8.ofNat d)).foldl (addDigit skip) 0 =
          (Nat.ofDigits 10 ds : ℕ) := by
      intro ds hds
      induction ds with
      | nil => rfl
      | cons d ds ih =>
        rw [List.forall_mem_cons] at hds
        rw [List.reverse_cons, List.map_append, List.foldl_append, ih hds.2, List.map_singleton,
          List.foldl_cons, List.foldl_nil, addDigit_digitChar hskip _ hds.1, Nat.ofDigits_cons]
        push_cast
        ring
    rw [hdigits _ fun d hd ↦ Nat.digits_lt_base (by decide) hd, Nat.ofDigits_digits]

/-- **The text of a number** is parsed as the number. -/
theorem parsed_signedText (skip : UInt8) (hskip : ¬Begins skip) (n : ℤ)
    (hjunk : ∀ b ∈ junk, ¬Begins b)
    (hrest : ∀ b ∈ rest.head?, ¬GoesOn skip b) :
    parsed skip (junk ++ (signedText n 10 ++ rest)) = (n, rest) := by
  -- the digits end where the rest begins
  have hgo : ∀ ds : List UInt8, (∀ b ∈ ds, b ∈ numeral n.natAbs 10) →
      (ds ++ rest).takeWhile (GoesOn skip ·) = ds ∧
        (ds ++ rest).dropWhile (GoesOn skip ·) = rest := by
    intro ds hds
    have hall : ∀ b ∈ ds, decide (GoesOn skip b) = true := fun b hb ↦
      decide_eq_true (.inl (isDigit_of_mem_numeral (hds b hb)))
    rw [List.takeWhile_append_of_pos hall, List.dropWhile_append_of_pos hall]
    cases rest with
    | nil => exact ⟨List.append_nil ds, rfl⟩
    | cons c rest =>
      have hc := hrest c rfl
      rw [List.takeWhile_cons_of_neg (by simpa using hc),
        List.dropWhile_cons_of_neg (by simpa using hc), List.append_nil]
      exact ⟨rfl, rfl⟩
  have hbegin : ∀ b ds, Begins b →
      (junk ++ b :: ds).dropWhile (fun b ↦ ¬Begins b) = b :: ds := by
    intro b ds hb
    rw [List.dropWhile_append_of_pos (by simpa using hjunk),
      List.dropWhile_cons_of_neg (by simpa using hb)]
  have hnumber := foldl_numeral hskip n.natAbs
  rw [parsed, signedText]
  split_ifs with hneg
  · obtain ⟨htake, hdrop⟩ := hgo _ fun _ hb ↦ hb
    have hminus : addDigit skip 0 45 = 0 := if_neg fun h ↦ absurd h.2 (by decide)
    have hne : skip ≠ 45 := fun heq ↦ hskip (.inl heq)
    rw [List.cons_append, List.nil_append, List.cons_append, hbegin _ _ (.inl rfl)]
    dsimp only
    rw [htake, hdrop, List.foldl_cons, hminus, hnumber, if_pos ⟨rfl, hne⟩]
    exact Prod.ext (by dsimp only; omega) rfl
  · obtain ⟨d, ds, hds⟩ := List.exists_cons_of_ne_nil (numeral_ne_nil n.natAbs)
    obtain ⟨htake, hdrop⟩ := hgo ds fun b hb ↦ hds ▸ List.mem_cons_of_mem d hb
    have hdigit := isDigit_of_mem_numeral (hds ▸ List.mem_cons_self : d ∈ numeral n.natAbs 10)
    have hminus : d ≠ 45 := by
      rintro rfl
      exact absurd hdigit (by decide)
    rw [List.nil_append, hds, List.cons_append, hbegin _ _ (.inr hdigit)]
    dsimp only
    rw [htake, hdrop, ← hds, hnumber, if_neg fun h ↦ hminus h.1]
    exact Prod.ext (by dsimp only; omega) rfl

end

/-! ### Printed and parsed -/

/-- `println` for one number after the other. -/
def printlnAll {mem : Mem} {m : Type → Type} [Monad m] (w : PrintVirtuals mem m) :
    List Int32 → m Unit
  | [] => return ()
  | n :: ns => do
    let _ ← Print.println w (.long n 10 (.inr (by decide)))
    printlnAll w ns

/-- A class derived from `Print` that puts what it is passed at the end of a queue. -/
def Appends {mem : Mem} (w : PrintVirtuals mem (StateM (List UInt8))) : Prop :=
  w.CountsOne fun q c ↦ q ++ c.passed

section

variable {σ : Type} {v : StreamVirtuals σ} {Q : StreamState σ → List UInt8 → Prop}
  {s : StreamState σ} {mem : Mem} {w : PrintVirtuals mem (StateM (List UInt8))}

theorem run_passed (q : List UInt8) (cs : List (SerialWrite mem)) :
    Runs.run (fun q c ↦ q ++ SerialWrite.passed c) q cs = q ++ cs.flatMap SerialWrite.passed := by
  induction cs generalizing q with
  | nil => exact (List.append_nil q).symm
  | cons c cs ih => rw [Runs.run_cons, ih, List.flatMap_cons, List.append_assoc]

theorem printlnAll_eq (hw : Appends w) (ns : List Int32) (q : List UInt8) :
    (printlnAll w ns q).2 = q ++ ns.flatMap fun n ↦ signedText n.toInt 10 ++ [13, 10] := by
  induction ns generalizing q with
  | nil => exact (List.append_nil q).symm
  | cons n ns ih =>
    have hline := Print.prints_println hw (.long n 10 (.inr (by decide))) q
    have htext : (PrintArg.long n 10 (.inr (by decide)) : PrintArg mem).text =
        signedText n.toInt 10 := rfl
    have hpassed := Printed.passed_append (PrintArg.long n 10 (.inr (by decide)) : PrintArg mem).printed
      (.chars [13, 10])
    rw [PrintArg.passed_printed, Printed.passed_chars, htext] at hpassed
    have hbind : printlnAll w (n :: ns) q =
        printlnAll w ns (Print.println w (.long n 10 (.inr (by decide))) q).2 := rfl
    rw [hbind, ih, hline, run_passed, ← Printed.passed, hpassed, List.flatMap_cons,
      List.append_assoc]

/-- The calls of `parseInt` return these numbers. -/
def Parses (v : StreamVirtuals σ) : StreamState σ → List Int32 → StreamState σ → Prop
  | s, [], s' => s' = s
  | s, n :: ns, s' => ∃ s₁, Settles (parseInt v) s n s₁ ∧ Parses v s₁ ns s'

/-- One number after the other is parsed. -/
theorem Queued.parses (hQ : Queued v Q) (ns : List Int32) (junk : List UInt8)
    (hjunk : ∀ b ∈ junk, ¬Begins b)
    (h : Q s (junk ++ ns.flatMap fun n ↦ signedText n.toInt 10 ++ [13, 10])) :
    ∃ s', Parses v s ns s' := by
  induction ns generalizing s junk with
  | nil => exact ⟨s, rfl⟩
  | cons n ns ih =>
    rw [List.flatMap_cons] at h
    have hend : ∀ rest : List UInt8, ∀ b ∈ ([13, 10] ++ rest).head?, ¬GoesOn 1 b := by
      intro rest b hb
      cases hb
      decide
    have hparsed := parsed_signedText 1 (by decide) n.toInt hjunk (hend
      (ns.flatMap fun n ↦ signedText n.toInt 10 ++ [13, 10]))
    obtain ⟨s₁, hs₁, h₁⟩ := parseInt_exact hQ 1 h
    rw [List.append_assoc, hparsed] at hs₁ h₁
    rw [Int32.ofInt_toInt] at hs₁
    have hline : ∀ b ∈ ([13, 10] : List UInt8), ¬Begins b :=
      List.forall_mem_cons.2 ⟨by decide, List.forall_mem_singleton.2 (by decide)⟩
    obtain ⟨s', hs'⟩ := ih [13, 10] hline h₁
    exact ⟨s', s₁, hs₁, hs'⟩

/-- **What is printed is parsed**: numbers that `println` writes to one end of a queue are those
that `parseInt` returns at the other, if the bytes come in time. -/
theorem parse_println (hw : Appends w) (hQ : Queued v Q) (ns : List Int32)
    (h : Q s (printlnAll w ns []).2) : ∃ s', Parses v s ns s' := by
  rw [printlnAll_eq hw, List.nil_append] at h
  exact hQ.parses ns [] (List.forall_mem_nil _) h

/-- A `Print` that keeps what it is passed. -/
def keepPrint (mem : Mem) : PrintVirtuals mem (StateM (List UInt8)) where
  write c q := (1, q ++ [c])
  writeStr str q := (1, q ++ str.bytes)
  writeBuf := Print.writeBuf mem fun c q ↦ (1, q ++ [c])

theorem appends_keepPrint (mem : Mem) : Appends (keepPrint mem) :=
  ⟨fun _ _ ↦ rfl, fun _ _ ↦ rfl, rfl⟩

/-- Two numbers, the first one negative, are printed and read. -/
theorem parse_println_two : ∃ s', Parses feed
    ⟨1000, 0, .still 0 (printlnAll (keepPrint fun _ ↦ 0) [-12, 7] []).2, fun _ ↦ 0⟩ [-12, 7] s' :=
  parse_println (appends_keepPrint fun _ ↦ 0) queued_prompt [-12, 7]
    (Feed.prompt_still 0 _ (by decide) (by decide))

end

end Stream

end Vega
