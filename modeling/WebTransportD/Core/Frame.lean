import Mathlib.Algebra.Group.Nat.Defs
import WebTransportD.Shared.Memory

set_option autoImplicit false

namespace WebTransportD.Frame

open Memory

def wtdFrameFlagReliable : UInt8 := 0x00
def wtdFrameFlagUnreliable : UInt8 := 0x01
def wtdFrameFlagMask : UInt8 := 0x01
def wtdFrameMaxPayload : Nat := 1 <<< 24

inductive FrameStatus where
  | ok
  | incomplete
  | errReserved
  | errTooBig
  | errBufTooSmall
  deriving DecidableEq, Repr

def sizeT (n : Nat) : Nat := n % 2 ^ 64

def wtdFrameEncodeVarint (v : Nat) (out : Nat -> UInt8) (start : Nat) : Nat × (Nat -> UInt8) :=
  if v < 1 <<< 6 then
    (1, store out start (UInt8.ofNat v))
  else if v < 1 <<< 14 then
    let out := store out start (UInt8.ofNat (0x40 ||| v >>> 8))
    let out := store out (start + 1) (UInt8.ofNat (v &&& 0xff))
    (2, out)
  else if v < 1 <<< 30 then
    let out := store out start (UInt8.ofNat (0x80 ||| v >>> 24))
    let out := store out (start + 1) (UInt8.ofNat (v >>> 16 &&& 0xff))
    let out := store out (start + 2) (UInt8.ofNat (v >>> 8 &&& 0xff))
    let out := store out (start + 3) (UInt8.ofNat (v &&& 0xff))
    (4, out)
  else if v < 1 <<< 62 then
    let out := store out start (UInt8.ofNat (0xc0 ||| v >>> 56))
    let out := store out (start + 1) (UInt8.ofNat (v >>> 48 &&& 0xff))
    let out := store out (start + 2) (UInt8.ofNat (v >>> 40 &&& 0xff))
    let out := store out (start + 3) (UInt8.ofNat (v >>> 32 &&& 0xff))
    let out := store out (start + 4) (UInt8.ofNat (v >>> 24 &&& 0xff))
    let out := store out (start + 5) (UInt8.ofNat (v >>> 16 &&& 0xff))
    let out := store out (start + 6) (UInt8.ofNat (v >>> 8 &&& 0xff))
    let out := store out (start + 7) (UInt8.ofNat (v &&& 0xff))
    (8, out)
  else
    (0, out)

-- `base` is the pointer the caller passes, as an offset into `buf`; `value` is `*p_value`.
-- The six bits kept of the first byte leave every shift below 2^62, so Nat loses nothing.
def varintDecode (buf : List UInt8) (base avail value : Nat) : Access (Nat × Nat) := do
  let b0 ← peek buf base
  let form := b0 >>> 6
  if form = 0 then
    pure (1, b0.toNat)
  else if form = 1 then
    if avail < 2 then
      pure (0, value)
    else do
      let b1 ← peek buf (base + 1)
      pure (2, (b0 &&& 0x3f).toNat <<< 8 ||| b1.toNat)
  else if form = 2 then
    if avail < 4 then
      pure (0, value)
    else do
      let b1 ← peek buf (base + 1)
      let b2 ← peek buf (base + 2)
      let b3 ← peek buf (base + 3)
      pure (4, (b0 &&& 0x3f).toNat <<< 24 ||| b1.toNat <<< 16 ||| b2.toNat <<< 8 ||| b3.toNat)
  else if avail < 8 then
    pure (0, value)
  else do
    let b1 ← peek buf (base + 1)
    let b2 ← peek buf (base + 2)
    let b3 ← peek buf (base + 3)
    let b4 ← peek buf (base + 4)
    let b5 ← peek buf (base + 5)
    let b6 ← peek buf (base + 6)
    let b7 ← peek buf (base + 7)
    pure (8, (b0 &&& 0x3f).toNat <<< 56 ||| b1.toNat <<< 48 ||| b2.toNat <<< 40 |||
      b3.toNat <<< 32 ||| b4.toNat <<< 24 ||| b5.toNat <<< 16 ||| b6.toNat <<< 8 ||| b7.toNat)

def varintSize (v : Nat) : Nat :=
  if v < 1 <<< 6 then 1
  else if v < 1 <<< 14 then 2
  else if v < 1 <<< 30 then 4
  else 8

structure Encoding where
  status : FrameStatus
  out : Nat -> UInt8
  outLen : Nat

def wtdFrameEncode (flag : UInt8) (payload : List UInt8) (out : Nat -> UInt8)
    (outSize outLen : Nat) : Encoding :=
  if flag &&& ~~~wtdFrameFlagMask ≠ 0 then
    { status := .errReserved, out, outLen }
  else if payload.length > wtdFrameMaxPayload then
    { status := .errTooBig, out, outLen }
  else
    let needed := sizeT (1 + varintSize payload.length + payload.length)
    if outSize < needed then
      { status := .errBufTooSmall, out, outLen }
    else
      let out := store out 0 flag
      let varint := wtdFrameEncodeVarint payload.length out 1
      let out := copy varint.2 (1 + varint.1) payload
      { status := .ok, out, outLen := needed }

-- The out-parameters of a successful decode; `payload` is the offset of `*p_payload`.
structure Decoded where
  consumed : Nat
  flag : UInt8
  payload : Nat
  payloadLen : Nat
  deriving DecidableEq, Repr

def Decoded.bytes (d : Decoded) (buf : List UInt8) : List UInt8 :=
  (buf.drop d.payload).take d.payloadLen

def wtdFrameDecodeAccess (buf : List UInt8) : Access (Except FrameStatus Decoded) := do
  if buf.length < 1 then
    pure (.error .incomplete)
  else
    let b0 ← peek buf 0
    if b0 &&& ~~~wtdFrameFlagMask ≠ 0 then
      pure (.error .errReserved)
    else if buf.length < 2 then
      pure (.error .incomplete)
    else
      let (vlen, plen) ← varintDecode buf 1 (buf.length - 1) 0
      if vlen = 0 then
        pure (.error .incomplete)
      else if plen > wtdFrameMaxPayload then
        pure (.error .errTooBig)
      else
        let total := sizeT (1 + vlen + plen)
        if buf.length < total then
          pure (.error .incomplete)
        else
          pure (.ok { consumed := total, flag := b0, payload := 1 + vlen, payloadLen := plen })

def wtdFrameDecode (buf : List UInt8) : Except FrameStatus Decoded :=
  (wtdFrameDecodeAccess buf).value

end WebTransportD.Frame
