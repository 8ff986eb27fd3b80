import Tombstone.JsonWriter
import Mathlib.Data.List.DropRight

/- Request signing and the crash fingerprint (`signature.h`, `signature.cpp`). -/
namespace Tombstone.Signature

/-! ## SHA-256 -/

def k : List (BitVec 32) :=
  [0x428a2f98, 0x71374491, 0xb5c0fbcf, 0xe9b5dba5, 0x3956c25b, 0x59f111f1, 0x923f82a4,
    0xab1c5ed5, 0xd807aa98, 0x12835b01, 0x243185be, 0x550c7dc3, 0x72be5d74, 0x80deb1fe,
    0x9bdc06a7, 0xc19bf174, 0xe49b69c1, 0xefbe4786, 0x0fc19dc6, 0x240ca1cc, 0x2de92c6f,
    0x4a7484aa, 0x5cb0a9dc, 0x76f988da, 0x983e5152, 0xa831c66d, 0xb00327c8, 0xbf597fc7,
    0xc6e00bf3, 0xd5a79147, 0x06ca6351, 0x14292967, 0x27b70a85, 0x2e1b2138, 0x4d2c6dfc,
    0x53380d13, 0x650a7354, 0x766a0abb, 0x81c2c92e, 0x92722c85, 0xa2bfe8a1, 0xa81a664b,
    0xc24b8b70, 0xc76c51a3, 0xd192e819, 0xd6990624, 0xf40e3585, 0x106aa070, 0x19a4c116,
    0x1e376c08, 0x2748774c, 0x34b0bcb5, 0x391c0cb3, 0x4ed8aa4a, 0x5b9cca4f, 0x682e6ff3,
    0x748f82ee, 0x78a5636f, 0x84c87814, 0x8cc70208, 0x90befffa, 0xa4506ceb, 0xbef9a3f7,
    0xc67178f2]

def rotr (x : BitVec 32) (n : Nat) : BitVec 32 := (x >>> n) ||| (x <<< (32 - n))

/-- `static_cast<std::uint32_t>` of a byte. -/
def word (b : UInt8) : BitVec 32 := BitVec.ofNat 32 b.toNat

/-- `static_cast<unsigned char>` of the last byte of a word. -/
def lowByte {n : Nat} (x : BitVec n) : UInt8 := UInt8.ofNat (x &&& BitVec.ofNat n 0xFF).toNat

/-- The hash value `h`, and the working variables. -/
structure Sha256State where
  a : BitVec 32 := 0x6a09e667
  b : BitVec 32 := 0xbb67ae85
  c : BitVec 32 := 0x3c6ef372
  d : BitVec 32 := 0xa54ff53a
  e : BitVec 32 := 0x510e527f
  f : BitVec 32 := 0x9b05688c
  g : BitVec 32 := 0x1f83d9ab
  hh : BitVec 32 := 0x5be0cd19

/-- The first sixteen entries of `w`. -/
def loadWord (block : Bytes) (i : Nat) : BitVec 32 :=
  (word (block.getD (i * 4) 0) <<< 24) ||| (word (block.getD (i * 4 + 1) 0) <<< 16) |||
    (word (block.getD (i * 4 + 2) 0) <<< 8) ||| word (block.getD (i * 4 + 3) 0)

/-- Entry `i` of `w`, from those before it. -/
def nextWord (w : List (BitVec 32)) (i : Nat) : BitVec 32 :=
  let at' (j : Nat) := w.getD j 0
  let s0 := rotr (at' (i - 15)) 7 ^^^ rotr (at' (i - 15)) 18 ^^^ (at' (i - 15) >>> 3)
  let s1 := rotr (at' (i - 2)) 17 ^^^ rotr (at' (i - 2)) 19 ^^^ (at' (i - 2) >>> 10)
  at' (i - 16) + s0 + at' (i - 7) + s1

def extended (w : List (BitVec 32)) (i : Nat) : List (BitVec 32) := w ++ [nextWord w i]

/-- The entries of `w` up to `n`, from sixteen on. -/
def schedule (block : Bytes) (n : Nat) : List (BitVec 32) :=
  (List.range' 16 n).foldl extended ((List.range 16).map (loadWord block))

/-- Step `i` of the second loop. -/
def round (w : List (BitVec 32)) (v : Sha256State) (i : Nat) : Sha256State :=
  let s1 := rotr v.e 6 ^^^ rotr v.e 11 ^^^ rotr v.e 25
  let ch := (v.e &&& v.f) ^^^ (~~~v.e &&& v.g)
  let temp1 := v.hh + s1 + ch + k.getD i 0 + w.getD i 0
  let s0 := rotr v.a 2 ^^^ rotr v.a 13 ^^^ rotr v.a 22
  let maj := (v.a &&& v.b) ^^^ (v.a &&& v.c) ^^^ (v.b &&& v.c)
  let temp2 := s0 + maj
  { a := temp1 + temp2, b := v.a, c := v.b, d := v.c, e := v.d + temp1, f := v.e, g := v.f, hh := v.g }

def Sha256State.processBlock (h : Sha256State) (block : Bytes) : Sha256State :=
  let v := (List.range 64).foldl (round (schedule block 48)) h
  { a := h.a + v.a, b := h.b + v.b, c := h.c + v.c, d := h.d + v.d
    e := h.e + v.e, f := h.f + v.f, g := h.g + v.g, hh := h.hh + v.hh }

/-- `tail_blocks`. -/
def tailBlocks (size : Nat) : Nat := if 64 < size % 64 + 1 + 8 then 2 else 1

/-- The final padded blocks. -/
def tail (data : Bytes) : Bytes :=
  let remainder := data.length % 64
  let copied := data.drop (data.length / 64 * 64) ++ List.replicate (128 - remainder) 0
  let bitLength : BitVec 64 := BitVec.ofNat 64 data.length * 8
  (List.range 8).foldl
    (fun tail i => tail.set (tailBlocks data.length * 64 - 1 - i) (lowByte (bitLength >>> (8 * i))))
    (copied.set remainder 0x80)

def digestWord (w : BitVec 32) : Bytes :=
  [lowByte (w >>> 24), lowByte (w >>> 16), lowByte (w >>> 8), lowByte w]

/-- `sha256_raw`. -/
def sha256Raw (data : Bytes) : Bytes :=
  let full := (List.range (data.length / 64)).foldl
    (fun (state : Sha256State) i => state.processBlock (data.drop (i * 64))) {}
  let state := (List.range (tailBlocks data.length)).foldl
    (fun (state : Sha256State) i => state.processBlock ((tail data).drop (i * 64))) full
  [state.a, state.b, state.c, state.d, state.e, state.f, state.g, state.hh].flatMap digestWord

def hexDigits : Bytes := lit "0123456789abcdef"

def toHex (bytes : Bytes) : Bytes :=
  bytes.flatMap fun (b : UInt8) =>
    [hexDigits.getD ((b >>> 4) &&& 0xF).toNat 0, hexDigits.getD (b &&& 0xF).toNat 0]

def sha256Hex (data : Bytes) : Bytes := toHex (sha256Raw data)

/-! ## Signing -/

/-- The `key_block`. -/
def keyBlock (key : Bytes) : Bytes :=
  let copied := if 64 < key.length then sha256Raw key else key
  copied ++ List.replicate (64 - copied.length) 0

def hmacSha256Raw (key message : Bytes) : Bytes :=
  let inner := (keyBlock key).map (· ^^^ 0x36) ++ message
  let outer := (keyBlock key).map (· ^^^ 0x5c) ++ sha256Raw inner
  sha256Raw outer

def hmacSha256Hex (key message : Bytes) : Bytes := toHex (hmacSha256Raw key message)

/-- The text that is signed: the second, a dot, and the body. -/
def signedInput (unixSeconds : BitVec 64) (body : Bytes) : Bytes :=
  intText unixSeconds.toInt ++ ch '.' :: body

/-- `build_ingest_signature_header`. -/
def buildIngestSignatureHeader (ingestKey body : Bytes) (unixSeconds : BitVec 64) : Bytes :=
  lit "t=" ++ intText unixSeconds.toInt ++ lit ",v1=" ++
    hmacSha256Hex ingestKey (signedInput unixSeconds body)

/-! ## The crash fingerprint -/

def isTrimmed (c : UInt8) : Bool := c == ch ' ' || c == ch '\t' || c == ch '\r'

def trim (text : Bytes) : Bytes := (text.dropWhile isTrimmed).rdropWhile isTrimmed

/-- `frame.substr(0, at)` for the first place of the pattern, or all of it. -/
def cutAt (pattern : Bytes) : Bytes → Bytes
  | [] => []
  | c :: cs => if pattern.isPrefixOf (c :: cs) then [] else c :: cutAt pattern cs

/-- `stack_trace.find('\n', line_start)`, or the end. -/
def lineEnd (stackTrace : Bytes) (lineStart : Nat) : Nat :=
  lineStart + ((stackTrace.drop lineStart).takeWhile (· != ch '\n')).length

/-- The loop over the lines. -/
def frameLoop (stackTrace : Bytes) (frames lineStart : Nat) (material : Bytes) : Bytes :=
  if _ : frames < 8 ∧ lineStart < stackTrace.length then
    let line := (stackTrace.drop lineStart).take (lineEnd stackTrace lineStart - lineStart)
    let frame := trim (cutAt (lit " (at ") line)
    if frame.isEmpty then frameLoop stackTrace frames (lineEnd stackTrace lineStart + 1) material
    else frameLoop stackTrace (frames + 1) (lineEnd stackTrace lineStart + 1)
      (material ++ ch '\n' :: frame)
  else material
termination_by stackTrace.length - lineStart
decreasing_by
  all_goals
    have : lineStart ≤ lineEnd stackTrace lineStart := Nat.le_add_right _ _
    omega

/-- `compute_crash_signature`. -/
def computeCrashSignature (stackHint stackTrace : Bytes) : Bytes :=
  (sha256Hex (frameLoop stackTrace 0 0 stackHint)).take 32

end Tombstone.Signature
