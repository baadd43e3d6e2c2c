/-
The rounds and the message schedules of SHA-1 and SHA-256 (FIPS 180-4, sections 4 and 6).

A round of SHA-1 takes its function and its constant from the stage of its index, twenty
rounds to a stage. The constants of SHA-256 are a parameter. A schedule continues sixteen
words for as long as it is asked to.
-/
import Mathlib

namespace MagnusPS5.Lib.SecureHash

abbrev Word := BitVec 32

def Ch (x y z : Word) : Word := (x &&& y) ^^^ (~~~x &&& z)

def Parity (x y z : Word) : Word := x ^^^ y ^^^ z

def Maj (x y z : Word) : Word := (x &&& y) ^^^ (x &&& z) ^^^ (y &&& z)

namespace Sha1

structure State where
  a : Word
  b : Word
  c : Word
  d : Word
  e : Word
  deriving DecidableEq

/-- The function of a stage. -/
def f (stage : ℕ) (x y z : Word) : Word :=
  match stage % 4 with
  | 0 => Ch x y z
  | 1 => Parity x y z
  | 2 => Maj x y z
  | _ => Parity x y z

/-- The constant of a stage. -/
def K (stage : ℕ) : Word :=
  match stage % 4 with
  | 0 => 0x5a827999
  | 1 => 0x6ed9eba1
  | 2 => 0x8f1bbcdc
  | _ => 0xca62c1d6

def round (stage : ℕ) (w : Word) (s : State) : State :=
  { a := s.a.rotateLeft 5 + f stage s.b s.c s.d + s.e + K stage + w
    b := s.a
    c := s.b.rotateLeft 30
    d := s.c
    e := s.d }

/-- The first `n` rounds, with the stage and the word of each. -/
def rounds (stage : ℕ → ℕ) (W : ℕ → Word) : ℕ → State → State
  | 0, s => s
  | n + 1, s => round (stage n) (W n) (rounds stage W n s)

theorem rounds_congr {stage stage' : ℕ → ℕ} (h : ∀ t, stage t % 4 = stage' t % 4) (W : ℕ → Word)
    (n : ℕ) (s : State) : rounds stage W n s = rounds stage' W n s := by
  induction n with
  | zero => rfl
  | succ n ih =>
    have hf : f (stage n) = f (stage' n) := by
      funext x y z
      unfold f
      rw [h n]
    have hK : K (stage n) = K (stage' n) := by
      unfold K
      rw [h n]
    unfold rounds round
    rw [ih, hf, hK]

/-- The words of the schedule that begins with `m`. -/
def schedule (m : ℕ → Word) (t : ℕ) : Word :=
  if t < 16 then m t
  else (schedule m (t - 3) ^^^ schedule m (t - 8) ^^^ schedule m (t - 14) ^^^
    schedule m (t - 16)).rotateLeft 1

theorem schedule_add (m : ℕ → Word) (t : ℕ) :
    schedule m (t + 16) = (schedule m (t + 13) ^^^ schedule m (t + 8) ^^^ schedule m (t + 2) ^^^
      schedule m t).rotateLeft 1 := by
  rw [schedule, if_neg (by omega)]
  rfl

end Sha1

namespace Sha256

structure State where
  a : Word
  b : Word
  c : Word
  d : Word
  e : Word
  f : Word
  g : Word
  h : Word
  deriving DecidableEq

def Sigma0 (x : Word) : Word := x.rotateRight 2 ^^^ x.rotateRight 13 ^^^ x.rotateRight 22

def Sigma1 (x : Word) : Word := x.rotateRight 6 ^^^ x.rotateRight 11 ^^^ x.rotateRight 25

def sigma0 (x : Word) : Word := x.rotateRight 7 ^^^ x.rotateRight 18 ^^^ x >>> 3

def sigma1 (x : Word) : Word := x.rotateRight 17 ^^^ x.rotateRight 19 ^^^ x >>> 10

def round (K w : Word) (s : State) : State :=
  let T1 := s.h + Sigma1 s.e + Ch s.e s.f s.g + K + w
  let T2 := Sigma0 s.a + Maj s.a s.b s.c
  { a := T1 + T2
    b := s.a
    c := s.b
    d := s.c
    e := s.d + T1
    f := s.e
    g := s.f
    h := s.g }

/-- The first `n` rounds, with the constant and the word of each. -/
def rounds (K W : ℕ → Word) : ℕ → State → State
  | 0, s => s
  | n + 1, s => round (K n) (W n) (rounds K W n s)

/-- The words of the schedule that begins with `m`. -/
def schedule (m : ℕ → Word) (t : ℕ) : Word :=
  if t < 16 then m t
  else sigma1 (schedule m (t - 2)) + schedule m (t - 7) + sigma0 (schedule m (t - 15)) +
    schedule m (t - 16)

theorem schedule_add (m : ℕ → Word) (t : ℕ) :
    schedule m (t + 16) = sigma1 (schedule m (t + 14)) + schedule m (t + 9) +
      sigma0 (schedule m (t + 1)) + schedule m t := by
  rw [schedule, if_neg (by omega)]
  rfl

end Sha256

end MagnusPS5.Lib.SecureHash
