/-
The SHA instructions that are emulated (`x64InstructionEmulator.cpp`).

An instruction takes its operands as four words, the lowest lane first. `rip` points to the
bytes of the instruction, which are a function of their offset.
-/
import MagnusPS5.Lib.SecureHash

namespace MagnusPS5.Loader

open Lib.SecureHash (Word)

abbrev Byte := BitVec 8

/-! ## The operations -/

/-- `XmmWords`, with `w[0]` to `w[3]`. -/
structure XmmWords where
  w0 : Word
  w1 : Word
  w2 : Word
  w3 : Word
  deriving DecidableEq

def rol32 (value : Word) (shift : ℕ) : Word :=
  let shift := shift % 32
  value <<< shift ||| value >>> (32 - shift)

def rotr32 (value : Word) (shift : ℕ) : Word :=
  let shift := shift % 32
  value >>> shift ||| value <<< (32 - shift)

def sha1Msg1 (dest src2 : XmmWords) : XmmWords :=
  let w0 := dest.w3
  let w1 := dest.w2
  let w2 := dest.w1
  let w3 := dest.w0
  let w4 := src2.w3
  let w5 := src2.w2
  { w3 := w2 ^^^ w0, w2 := w3 ^^^ w1, w1 := w4 ^^^ w2, w0 := w5 ^^^ w3 }

def sha1Msg2 (dest src2 : XmmWords) : XmmWords :=
  let w13 := src2.w2
  let w14 := src2.w1
  let w15 := src2.w0
  let w16 := rol32 (dest.w3 ^^^ w13) 1
  let w17 := rol32 (dest.w2 ^^^ w14) 1
  let w18 := rol32 (dest.w1 ^^^ w15) 1
  let w19 := rol32 (dest.w0 ^^^ w16) 1
  { w3 := w16, w2 := w17, w1 := w18, w0 := w19 }

def sha1Nexte (dest src2 : XmmWords) : XmmWords :=
  let tmp := rol32 dest.w3 30
  { w3 := src2.w3 + tmp, w2 := src2.w2, w1 := src2.w1, w0 := src2.w0 }

def sha1RoundFunc (group : Byte) (b c d : Word) : Word :=
  match (group &&& 3).toNat with
  | 0 => (b &&& c) ^^^ (~~~b &&& d)
  | 1 => b ^^^ c ^^^ d
  | 2 => (b &&& c) ^^^ (b &&& d) ^^^ (c &&& d)
  | _ => b ^^^ c ^^^ d

def sha1RoundConstant (group : Byte) : Word :=
  match (group &&& 3).toNat with
  | 0 => 0x5a827999
  | 1 => 0x6ed9eba1
  | 2 => 0x8f1bbcdc
  | _ => 0xca62c1d6

/-- One pass through the loop of `Sha1Rnds4`: `a`, `b`, `c`, `d` and `e`. -/
def sha1Rnds4Round (group : Byte) (k : Word) (w : ℕ → Word) (round : ℕ) :
    Word × Word × Word × Word × Word → Word × Word × Word × Word × Word
  | (a, b, c, d, e) =>
    let term := sha1RoundFunc group b c d + rol32 a 5 + w round + k
    let term := if 0 < round then term + e else term
    (term, a, rol32 b 30, c, d)

def sha1Rnds4 (dest src2 : XmmWords) (imm8 : Byte) : XmmWords :=
  let group := imm8 &&& 3
  let k := sha1RoundConstant group
  let w : ℕ → Word := fun i => [src2.w3, src2.w2, src2.w1, src2.w0].getD i 0
  let (a, b, c, d, _) := (List.range 4).foldl (fun s round => sha1Rnds4Round group k w round s)
    (dest.w3, dest.w2, dest.w1, dest.w0, 0)
  { w3 := a, w2 := b, w1 := c, w0 := d }

def sha256Sigma0 (x : Word) : Word := rotr32 x 7 ^^^ rotr32 x 18 ^^^ x >>> 3

def sha256Sigma1 (x : Word) : Word := rotr32 x 17 ^^^ rotr32 x 19 ^^^ x >>> 10

def sha256Sum0 (x : Word) : Word := rotr32 x 2 ^^^ rotr32 x 13 ^^^ rotr32 x 22

def sha256Sum1 (x : Word) : Word := rotr32 x 6 ^^^ rotr32 x 11 ^^^ rotr32 x 25

def sha256Ch (e f g : Word) : Word := (e &&& f) ^^^ (~~~e &&& g)

def sha256Maj (a b c : Word) : Word := (a &&& b) ^^^ (a &&& c) ^^^ (b &&& c)

def sha256Msg1 (dest src2 : XmmWords) : XmmWords :=
  let w4 := src2.w0
  let w3 := dest.w3
  let w2 := dest.w2
  let w1 := dest.w1
  let w0 := dest.w0
  { w3 := w3 + sha256Sigma0 w4
    w2 := w2 + sha256Sigma0 w3
    w1 := w1 + sha256Sigma0 w2
    w0 := w0 + sha256Sigma0 w1 }

def sha256Msg2 (dest src2 : XmmWords) : XmmWords :=
  let w14 := src2.w2
  let w15 := src2.w3
  let w16 := dest.w0 + sha256Sigma1 w14
  let w17 := dest.w1 + sha256Sigma1 w15
  let w18 := dest.w2 + sha256Sigma1 w16
  let w19 := dest.w3 + sha256Sigma1 w17
  { w3 := w19, w2 := w18, w1 := w17, w0 := w16 }

/-- One pass through the loop of `Sha256Rnds2`: `a` to `h`. -/
def sha256Rnds2Round (wk : Word) :
    Word × Word × Word × Word × Word × Word × Word × Word →
      Word × Word × Word × Word × Word × Word × Word × Word
  | (a, b, c, d, e, f, g, h) =>
    let t1 := sha256Ch e f g + sha256Sum1 e + wk + h
    let t2 := sha256Maj a b c + sha256Sum0 a
    (t1 + t2, a, b, c, t1 + d, e, f, g)

def sha256Rnds2 (dest src2 xmm0 : XmmWords) : XmmWords :=
  let (a, b, _, _, e, f, _, _) := [xmm0.w0, xmm0.w1].foldl (fun s wk => sha256Rnds2Round wk s)
    (src2.w3, src2.w2, dest.w3, dest.w2, src2.w1, src2.w0, dest.w1, dest.w0)
  { w3 := a, w2 := b, w1 := e, w0 := f }

/-! ## Instructions -/

structure ShaNiInsn where
  escape : Byte
  opcode : Byte
  imm8 : Byte
  rex : Byte
  modrm_offset : ℕ
  length : ℕ
  deriving DecidableEq

/-- `ExecuteShaNiInsn`: what is left in `dest`, `none` where it answers `false`. -/
def executeShaNiInsn (insn : ShaNiInsn) (src2 xmm0 dest : XmmWords) : Option XmmWords :=
  if insn.escape = 0x3a ∧ insn.opcode = 0xcc then some (sha1Rnds4 dest src2 insn.imm8)
  else if insn.opcode = 0xc8 then some (sha1Nexte dest src2)
  else if insn.opcode = 0xc9 then some (sha1Msg1 dest src2)
  else if insn.opcode = 0xca then some (sha1Msg2 dest src2)
  else if insn.opcode = 0xcb then some (sha256Rnds2 dest src2 xmm0)
  else if insn.opcode = 0xcc then some (sha256Msg1 dest src2)
  else if insn.opcode = 0xcd then some (sha256Msg2 dest src2)
  else none

end MagnusPS5.Loader
