/-
Words under exclusive or.

A map of words that respects exclusive or is known from what it does to the powers of two: on words
of `n` bits it combines their images (`XorLinear.eq_combine`). Whether it is one to one there can
be computed: `independent` eliminates one image after the other. The same holds of maps of three
words (`XorLinear₃.injective`).
-/
import Mathlib

namespace MagnusPS5.Lib

open List Nat

/-! ## Combinations of words -/

/-- The exclusive or of the words whose bit is set. -/
def combine : List Bool → List ℕ → ℕ
  | b :: bs, v :: vs => (if b then v else 0) ^^^ combine bs vs
  | _, _ => 0

theorem combine_cons (b : Bool) (bs : List Bool) (v : ℕ) (vs : List ℕ) :
    combine (b :: bs) (v :: vs) = (if b then v else 0) ^^^ combine bs vs := rfl

@[simp] theorem combine_nil (vs : List ℕ) : combine [] vs = 0 := by
  cases vs <;> rfl

theorem xor_swap (a b c d : ℕ) : (a ^^^ b) ^^^ (c ^^^ d) = (a ^^^ c) ^^^ (b ^^^ d) := by
  ac_rfl

variable {bs : List Bool} {n x y : ℕ} {vs : List ℕ}

theorem combine_append (h : bs.length = vs.length) (cs : List Bool) (ws : List ℕ) :
    combine (bs ++ cs) (vs ++ ws) = combine bs vs ^^^ combine cs ws := by
  induction bs generalizing vs with
  | nil =>
    have hnil : vs = [] := length_eq_zero_iff.mp h.symm
    rw [hnil, combine_nil, zero_xor]
    rfl
  | cons b bs ih =>
    cases vs with
    | nil => simp at h
    | cons v vs =>
      rw [cons_append, cons_append, combine_cons, ih (by simpa using h), combine_cons, xor_assoc]

theorem combine_mem {p : ℕ → Prop} (hzero : p 0) (hxor : ∀ a b, p a → p b → p (a ^^^ b))
    (bs : List Bool) (h : ∀ v ∈ vs, p v) : p (combine bs vs) := by
  induction bs generalizing vs with
  | nil => rwa [combine_nil]
  | cons b bs ih =>
    cases vs with
    | nil => exact hzero
    | cons v vs =>
      rw [combine_cons]
      refine hxor _ _ ?_ (ih fun w hw => h w (.tail _ hw))
      split
      · exact h v mem_cons_self
      · exact hzero

theorem combine_of_false (h : ∀ b ∈ bs, b = false) (vs : List ℕ) : combine bs vs = 0 := by
  induction bs generalizing vs with
  | nil => exact combine_nil vs
  | cons b bs ih =>
    cases vs with
    | nil => rfl
    | cons v vs =>
      rw [combine_cons, h b mem_cons_self, ih (fun c hc => h c (mem_cons_of_mem _ hc))]
      simp

theorem combine_zipWith {cs : List Bool} (h : bs.length = cs.length) (vs : List ℕ) :
    combine (zipWith (· ^^ ·) bs cs) vs = combine bs vs ^^^ combine cs vs := by
  induction bs generalizing cs vs with
  | nil =>
    have hnil : cs = [] := length_eq_zero_iff.mp h.symm
    rw [hnil]
    simp
  | cons b bs ih =>
    cases cs with
    | nil => simp at h
    | cons c cs =>
      cases vs with
      | nil => simp [combine]
      | cons v vs =>
        rw [zipWith_cons_cons, combine_cons, combine_cons, combine_cons,
          ih (by simpa using h), xor_swap]
        cases b <;> cases c <;> simp

/-! ## Independence -/

/-- `w` without the highest bit of `v`. -/
def reduce (v w : ℕ) : ℕ := if w.testBit v.log2 then w ^^^ v else w

/-- No combination of the words is zero, but for that of none of them. At most `n` words are looked
at. -/
def independent : ℕ → List ℕ → Bool
  | _, [] => true
  | 0, _ :: _ => false
  | n + 1, v :: vs => v != 0 && independent n (vs.map (reduce v))

theorem testBit_reduce {v : ℕ} (hv : v ≠ 0) (w : ℕ) : (reduce v w).testBit v.log2 = false := by
  unfold reduce
  split
  · next h => rw [testBit_xor, h, testBit_log2 hv]; rfl
  · next h => simpa using h

theorem combine_reduce (v : ℕ) (bs : List Bool) (vs : List ℕ) :
    ∃ c : Bool, combine bs vs = combine bs (vs.map (reduce v)) ^^^ if c then v else 0 := by
  induction bs generalizing vs with
  | nil => exact ⟨false, by simp⟩
  | cons b bs ih =>
    cases vs with
    | nil => exact ⟨false, by simp⟩
    | cons w vs =>
      obtain ⟨c, hc⟩ := ih vs
      rw [map_cons, combine_cons, combine_cons, hc]
      by_cases hb : b = true ∧ w.testBit v.log2 = true
      · refine ⟨!c, ?_⟩
        rw [reduce, if_pos hb.1, if_pos hb.1, if_pos hb.2]
        cases c
        · simp only [Bool.false_eq_true, if_false, xor_zero, Bool.not_false, if_true]
          rw [Nat.xor_right_comm, Nat.xor_assoc w v v, Nat.xor_self, Nat.xor_zero]
        · simp only [if_true, Bool.not_true, Bool.false_eq_true, if_false, Nat.xor_zero]
          rw [← xor_assoc, xor_right_comm]
      · refine ⟨c, ?_⟩
        have hsame : (if b then reduce v w else 0) = if b then w else 0 := by
          by_cases hb' : b = true
          · rw [if_pos hb', if_pos hb', reduce, if_neg fun hw => hb ⟨hb', hw⟩]
          · rw [if_neg hb', if_neg hb']
        rw [hsame, xor_assoc]

/-- **Independent words have no combination that is zero.** -/
theorem eq_false_of_combine (hind : independent n vs = true)
    (hlen : bs.length = vs.length) (hzero : combine bs vs = 0) : ∀ b ∈ bs, b = false := by
  induction n generalizing vs bs with
  | zero =>
    cases vs with
    | nil => simp [length_eq_zero_iff.mp hlen]
    | cons v vs => simp [independent] at hind
  | succ n ih =>
    cases vs with
    | nil => simp [length_eq_zero_iff.mp hlen]
    | cons v vs =>
      cases bs with
      | nil => simp
      | cons b bs =>
        rw [independent, Bool.and_eq_true, bne_iff_ne] at hind
        obtain ⟨hv, hrest⟩ := hind
        obtain ⟨c, hc⟩ := combine_reduce v bs vs
        rw [combine_cons, hc] at hzero
        -- only `v` has its highest bit, so it is taken an even number of times
        have hlow : (combine bs (vs.map (reduce v))).testBit v.log2 = false := by
          refine combine_mem (p := fun w => w.testBit v.log2 = false) (zero_testBit _)
            (fun a b ha hb => by rw [testBit_xor, ha, hb]; rfl) bs fun w hw => ?_
          obtain ⟨u, _, rfl⟩ := mem_map.mp hw
          exact testBit_reduce hv u
        have hbit := congrArg (·.testBit v.log2) hzero
        simp only [testBit_xor, hlow, zero_testBit] at hbit
        have hbc : b = c := by
          cases b <;> cases c <;> simp [testBit_log2 hv] at hbit ⊢
        have hreduced : combine bs (vs.map (reduce v)) = 0 := by
          rw [hbc, Nat.xor_comm, Nat.xor_assoc, Nat.xor_self, Nat.xor_zero] at hzero
          exact hzero
        have hbs := ih hrest (by simpa using hlen) hreduced
        rw [combine_of_false hbs, hreduced, Nat.zero_xor] at hc
        have hcf : c = false := by
          cases c
          · rfl
          · exact absurd hc.symm hv
        intro d hd
        rcases mem_cons.mp hd with hfirst | hmem
        · rw [hfirst, hbc, hcf]
        · exact hbs d hmem

theorem combine_injective (hind : independent n vs = true)
    {cs : List Bool} (hbs : bs.length = vs.length) (hcs : cs.length = vs.length)
    (h : combine bs vs = combine cs vs) : bs = cs := by
  have hzero : combine (zipWith (· ^^ ·) bs cs) vs = 0 := by
    rw [combine_zipWith (hbs.trans hcs.symm), h, Nat.xor_self]
  have hfalse := eq_false_of_combine hind (by rw [length_zipWith, hbs, hcs, min_self]) hzero
  refine ext_getElem (hbs.trans hcs.symm) fun i hi hi' => ?_
  have hi'' : i < (zipWith (· ^^ ·) bs cs).length := by
    rw [length_zipWith]
    omega
  have hbit := hfalse _ (getElem_mem hi'')
  rw [getElem_zipWith] at hbit
  simpa using hbit

/-! ## Maps -/

/-- The `n` lowest bits of a word, the lowest first. -/
def bits : ℕ → ℕ → List Bool
  | 0, _ => []
  | n + 1, x => decide (x % 2 = 1) :: bits n (x / 2)

/-- The images of the first `n` powers of two. -/
def basisImages : ℕ → (ℕ → ℕ) → List ℕ
  | 0, _ => []
  | n + 1, f => f 1 :: basisImages n fun x => f (2 * x)

@[simp] theorem length_bits (n x : ℕ) : (bits n x).length = n := by
  induction n generalizing x with
  | zero => rfl
  | succ n ih => rw [bits, length_cons, ih]

@[simp] theorem length_basisImages (n : ℕ) (f : ℕ → ℕ) : (basisImages n f).length = n := by
  induction n generalizing f with
  | zero => rfl
  | succ n ih => rw [basisImages, length_cons, ih]

theorem bits_injective (hx : x < 2 ^ n) (hy : y < 2 ^ n) (h : bits n x = bits n y) : x = y := by
  induction n generalizing x y with
  | zero => omega
  | succ n ih =>
    rw [bits, bits, cons.injEq, decide_eq_decide] at h
    rw [pow_succ] at hx hy
    have hhalf := ih (by omega) (by omega) h.2
    omega

/-- A map of words that respects exclusive or. -/
structure XorLinear (f : ℕ → ℕ) : Prop where
  xor : ∀ a b, f (a ^^^ b) = f a ^^^ f b

namespace XorLinear

variable {f g : ℕ → ℕ}

theorem zero (hf : XorLinear f) : f 0 = 0 := by
  have h := hf.xor 0 0
  rwa [Nat.xor_self, Nat.xor_self] at h

theorem comp (hf : XorLinear f) (hg : XorLinear g) : XorLinear fun x => f (g x) :=
  ⟨fun a b => by rw [hg.xor, hf.xor]⟩

theorem shiftLeft (k : ℕ) : XorLinear (· <<< k) := ⟨fun _ _ => shiftLeft_xor_distrib⟩

theorem shiftRight (k : ℕ) : XorLinear (· >>> k) := ⟨fun _ _ => shiftRight_xor_distrib⟩

theorem and (mask : ℕ) : XorLinear (· &&& mask) := ⟨fun _ _ => and_xor_distrib_right⟩

theorem mul (k : ℕ) : XorLinear (· * 2 ^ k) :=
  ⟨fun a b => by
    simp only [← shiftLeft_eq]
    exact shiftLeft_xor_distrib⟩

theorem split_low (x : ℕ) : x = (x % 2) ^^^ (2 * (x / 2)) := by
  have hmod : ((x % 2) ^^^ (2 * (x / 2))) % 2 = x % 2 := by
    rw [xor_mod_two_eq]
    omega
  have hdiv : ((x % 2) ^^^ (2 * (x / 2))) / 2 = x / 2 := by
    rw [xor_div_two, div_eq_of_lt (mod_lt x (zero_lt_two)), zero_xor]
    omega
  omega

/-- **A map that respects exclusive or combines its basisImages of the powers of two.** -/
theorem eq_combine (hf : XorLinear f) (hx : x < 2 ^ n) :
    f x = combine (bits n x) (basisImages n f) := by
  induction n generalizing f x with
  | zero =>
    have hzero : x = 0 := by omega
    rw [hzero, hf.zero]
    rfl
  | succ n ih =>
    have hhalf : XorLinear fun x => f (2 * x) := by
      have hdouble := hf.comp (mul 1)
      simpa only [pow_one, mul_comm _ 2] using hdouble
    have hsplit : x = (x % 2) ^^^ (2 * (x / 2)) := split_low x
    have hrest := ih hhalf (x := x / 2) (by rw [pow_succ] at hx; omega)
    rw [bits, basisImages, combine_cons, ← hrest]
    conv_lhs => rw [hsplit, hf.xor]
    congr 1
    rcases mod_two_eq_zero_or_one x with hx0 | hx1
    · rw [hx0, hf.zero]
      rfl
    · rw [hx1]
      rfl

end XorLinear

/-! ## Maps of three words -/

/-- A map of three words that respects exclusive or. -/
structure XorLinear₃ (f : ℕ → ℕ → ℕ → ℕ) : Prop where
  xor : ∀ x y z x' y' z',
    f (x ^^^ x') (y ^^^ y') (z ^^^ z') = f x y z ^^^ f x' y' z'

/-- The basisImages of the powers of two below `2 ^ w`, `2 ^ h` and `2 ^ d` in the three places. -/
def basisImages₃ (w h d : ℕ) (f : ℕ → ℕ → ℕ → ℕ) : List ℕ :=
  basisImages w (fun x => f x 0 0) ++
    (basisImages h (fun y => f 0 y 0) ++ basisImages d fun z => f 0 0 z)

/-- The bits of three words. -/
def bits₃ (w h d x y z : ℕ) : List Bool := bits w x ++ (bits h y ++ bits d z)

namespace XorLinear₃

variable {f g : ℕ → ℕ → ℕ → ℕ} {k : ℕ → ℕ}

theorem first (hk : XorLinear k) : XorLinear₃ fun x _ _ => k x := ⟨fun _ _ _ _ _ _ => hk.xor _ _⟩

theorem second (hk : XorLinear k) : XorLinear₃ fun _ y _ => k y := ⟨fun _ _ _ _ _ _ => hk.xor _ _⟩

theorem third (hk : XorLinear k) : XorLinear₃ fun _ _ z => k z := ⟨fun _ _ _ _ _ _ => hk.xor _ _⟩

theorem add (hf : XorLinear₃ f) (hg : XorLinear₃ g) : XorLinear₃ fun x y z => f x y z ^^^ g x y z :=
  ⟨fun x y z x' y' z' => by rw [hf.xor, hg.xor, xor_swap]⟩

theorem post (hk : XorLinear k) (hf : XorLinear₃ f) : XorLinear₃ fun x y z => k (f x y z) :=
  ⟨fun x y z x' y' z' => by rw [hf.xor, hk.xor]⟩

theorem alongFirst (hf : XorLinear₃ f) : XorLinear fun x => f x 0 0 :=
  ⟨fun a b => by simpa using hf.xor a 0 0 b 0 0⟩

theorem alongSecond (hf : XorLinear₃ f) : XorLinear fun y => f 0 y 0 :=
  ⟨fun a b => by simpa using hf.xor 0 a 0 0 b 0⟩

theorem alongThird (hf : XorLinear₃ f) : XorLinear fun z => f 0 0 z :=
  ⟨fun a b => by simpa using hf.xor 0 0 a 0 0 b⟩

variable {w h d z : ℕ}

theorem eq_combine (hf : XorLinear₃ f) (hx : x < 2 ^ w) (hy : y < 2 ^ h)
    (hz : z < 2 ^ d) : f x y z = combine (bits₃ w h d x y z) (basisImages₃ w h d f) := by
  have hxy := hf.xor x 0 0 0 y 0
  have hxyz := hf.xor x y 0 0 0 z
  simp only [xor_zero, zero_xor] at hxy hxyz
  rw [bits₃, basisImages₃, combine_append (by rw [length_bits, length_basisImages]),
    combine_append (by rw [length_bits, length_basisImages]), ← hf.alongFirst.eq_combine hx,
    ← hf.alongSecond.eq_combine hy, ← hf.alongThird.eq_combine hz, hxyz, hxy, xor_assoc]

theorem length_bits₃ (w h d x y z : ℕ) :
    (bits₃ w h d x y z).length = (basisImages₃ w h d f).length := by
  simp [bits₃, basisImages₃]

/-- **A map whose basisImages are independent is one to one.** -/
theorem injective (hf : XorLinear₃ f) (hind : independent n (basisImages₃ w h d f) = true)
    {x' y' z' : ℕ} (hx : x < 2 ^ w) (hy : y < 2 ^ h) (hz : z < 2 ^ d) (hx' : x' < 2 ^ w)
    (hy' : y' < 2 ^ h) (hz' : z' < 2 ^ d) (heq : f x y z = f x' y' z') :
    x = x' ∧ y = y' ∧ z = z' := by
  rw [hf.eq_combine hx hy hz, hf.eq_combine hx' hy' hz'] at heq
  have hbits := combine_injective hind (length_bits₃ ..) (length_bits₃ ..) heq
  have hfirst := append_inj hbits (by rw [length_bits, length_bits])
  have hsecond := append_inj hfirst.2 (by rw [length_bits, length_bits])
  exact ⟨bits_injective hx hx' hfirst.1, bits_injective hy hy' hsecond.1,
    bits_injective hz hz' hsecond.2⟩

theorem mem (hf : XorLinear₃ f) {p : ℕ → Prop} (hzero : p 0)
    (hxor : ∀ a b, p a → p b → p (a ^^^ b)) (himages : ∀ v ∈ basisImages₃ w h d f, p v)
    (hx : x < 2 ^ w) (hy : y < 2 ^ h) (hz : z < 2 ^ d) : p (f x y z) := by
  rw [hf.eq_combine hx hy hz]
  exact combine_mem hzero hxor _ himages

end XorLinear₃

end MagnusPS5.Lib
