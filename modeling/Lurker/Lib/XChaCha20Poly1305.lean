import Mathlib.Data.List.Basic

/-!
# XChaCha20-Poly1305

The authenticated cipher on bytes. Words are natural numbers below 2^32, the
state of a block is its four rows, and the double round works on the columns and
then, with the rows turned, on the diagonals. Decrypting what was encrypted
under the same key, nonce and data gives it back.
-/

namespace XChaCha20Poly1305

abbrev Bytes := List UInt8

def word : Nat := 4294967296

def add (a b : Nat) : Nat := (a + b) % word

def rotl (n a : Nat) : Nat := (a <<< n ||| a >>> (32 - n)) % word

/-- The bytes of a number, the low byte first. -/
def toLE : Nat → Nat → Bytes
  | 0, _ => []
  | k + 1, n => UInt8.ofNat n :: toLE k (n / 256)

def ofLE (bs : Bytes) : Nat := bs.foldr (fun b n => b.toNat + 256 * n) 0

/-- The words of a byte string. -/
def words : Nat → Bytes → List Nat
  | 0, _ => []
  | k + 1, bs => ofLE (bs.take 4) :: words k (bs.drop 4)

structure Column where
  a : Nat
  b : Nat
  c : Nat
  d : Nat

def quarterRound (x : Column) : Column :=
  let a := add x.a x.b
  let d := rotl 16 (x.d ^^^ a)
  let c := add x.c d
  let b := rotl 12 (x.b ^^^ c)
  let a := add a b
  let d := rotl 8 (d ^^^ a)
  let c := add c d
  let b := rotl 7 (b ^^^ c)
  ⟨a, b, c, d⟩

/-- The four columns of a block. -/
structure Block where
  x : Column
  y : Column
  z : Column
  w : Column

def columnRound (s : Block) : Block :=
  ⟨quarterRound s.x, quarterRound s.y, quarterRound s.z, quarterRound s.w⟩

/-- The block whose columns are the diagonals. -/
def turn (s : Block) : Block where
  x := ⟨s.x.a, s.y.b, s.z.c, s.w.d⟩
  y := ⟨s.y.a, s.z.b, s.w.c, s.x.d⟩
  z := ⟨s.z.a, s.w.b, s.x.c, s.y.d⟩
  w := ⟨s.w.a, s.x.b, s.y.c, s.z.d⟩

def turnBack (s : Block) : Block where
  x := ⟨s.x.a, s.w.b, s.z.c, s.y.d⟩
  y := ⟨s.y.a, s.x.b, s.w.c, s.z.d⟩
  z := ⟨s.z.a, s.y.b, s.x.c, s.w.d⟩
  w := ⟨s.w.a, s.z.b, s.y.c, s.x.d⟩

def doubleRound (s : Block) : Block := turnBack (columnRound (turn (columnRound s)))

def rounds : Nat → Block → Block
  | 0, s => s
  | n + 1, s => rounds n (doubleRound s)

def addColumn (x y : Column) : Column := ⟨add x.a y.a, add x.b y.b, add x.c y.c, add x.d y.d⟩

def addBlock (s t : Block) : Block :=
  ⟨addColumn s.x t.x, addColumn s.y t.y, addColumn s.z t.z, addColumn s.w t.w⟩

/-- The initial block: the constants, eight words of key, four of counter and nonce. -/
def initial (key last : List Nat) : Block :=
  let k (i : Nat) := key.getD i 0
  let n (i : Nat) := last.getD i 0
  ⟨⟨0x61707865, k 0, k 4, n 0⟩, ⟨0x3320646e, k 1, k 5, n 1⟩, ⟨0x79622d32, k 2, k 6, n 2⟩,
    ⟨0x6b206574, k 3, k 7, n 3⟩⟩

def rowBytes (a b c d : Nat) : Bytes := toLE 4 a ++ toLE 4 b ++ toLE 4 c ++ toLE 4 d

def serialize (s : Block) : Bytes :=
  rowBytes s.x.a s.y.a s.z.a s.w.a ++ rowBytes s.x.b s.y.b s.z.b s.w.b ++
    rowBytes s.x.c s.y.c s.z.c s.w.c ++ rowBytes s.x.d s.y.d s.z.d s.w.d

/-- One block of key stream, under a 12-byte nonce. -/
def block (key nonce : Bytes) (counter : Nat) : Bytes :=
  let s := initial (words 8 key) (counter :: words 3 nonce)
  serialize (addBlock (rounds 10 s) s)

/-- HChaCha20: the subkey of a key and a 16-byte nonce. -/
def subkey (key nonce : Bytes) : Bytes :=
  let s := rounds 10 (initial (words 8 key) (words 4 nonce))
  rowBytes s.x.a s.y.a s.z.a s.w.a ++ rowBytes s.x.d s.y.d s.z.d s.w.d

def prime : Nat := Nat.pow 2 130 - 5

def clamp (r : Nat) : Nat := r &&& 0x0ffffffc0ffffffc0ffffffc0fffffff

/-- The 16-byte blocks of a message into the accumulator. -/
def absorb (r : Nat) : Nat → Bytes → Nat → Nat
  | 0, _, acc => acc
  | n + 1, bs, acc =>
    let m := bs.take 16
    absorb r n (bs.drop 16) ((acc + (ofLE m + 256 ^ m.length)) * r % prime)

def poly1305 (key message : Bytes) : Bytes :=
  let r := clamp (ofLE (key.take 16))
  let s := ofLE (key.drop 16)
  toLE 16 (absorb r ((message.length + 15) / 16) message 0 + s)

def pad16 (bs : Bytes) : Bytes := bs ++ List.replicate ((16 - bs.length % 16) % 16) 0

/-- Bytes with a key stream over them. -/
def mask : Bytes → Bytes → Bytes
  | b :: bs, k :: ks => (b ^^^ k) :: mask bs ks
  | bs, _ => bs

structure Session where
  key : Bytes
  nonce : Bytes

def session (key nonce : Bytes) : Session :=
  ⟨subkey key (nonce.take 16), List.replicate 4 0 ++ nonce.drop 16⟩

def stream (s : Session) (length : Nat) : Bytes :=
  (List.range ((length + 63) / 64)).flatMap fun i => block s.key s.nonce (i + 1)

def tag (s : Session) (aad ct : Bytes) : Bytes :=
  poly1305 ((block s.key s.nonce 0).take 32)
    (pad16 aad ++ pad16 ct ++ toLE 8 aad.length ++ toLE 8 ct.length)

def encrypt (key nonce aad pt : Bytes) : Bytes :=
  let s := session key nonce
  let ct := mask pt (stream s pt.length)
  ct ++ tag s aad ct

def decrypt (key nonce aad sealed : Bytes) : Option Bytes :=
  let s := session key nonce
  let ct := sealed.take (sealed.length - 16)
  if sealed.drop (sealed.length - 16) = tag s aad ct then some (mask ct (stream s ct.length))
  else none

theorem length_toLE (k n : Nat) : (toLE k n).length = k := by
  induction k generalizing n with
  | zero => rfl
  | succ k ih => rw [toLE, List.length_cons, ih]

theorem length_mask (bs ks : Bytes) : (mask bs ks).length = bs.length := by
  induction bs, ks using mask.induct with
  | case1 b bs k ks ih => rw [mask, List.length_cons, List.length_cons, ih]
  | case2 bs ks h => rw [mask]; exact h

theorem mask_mask (bs ks : Bytes) : mask (mask bs ks) ks = bs := by
  induction bs, ks using mask.induct with
  | case1 b bs k ks ih => rw [mask, mask, ih, UInt8.xor_assoc, UInt8.xor_self, UInt8.xor_zero]
  | case2 bs ks h =>
    have heq : mask bs ks = bs := by rw [mask]; exact h
    rw [heq, heq]

/-- Decrypting what was encrypted gives it back. -/
theorem decrypt_encrypt (key nonce aad pt : Bytes) :
    decrypt key nonce aad (encrypt key nonce aad pt) = some pt := by
  have htag (s : Session) (aad ct : Bytes) : (tag s aad ct).length = 16 := length_toLE ..
  unfold decrypt encrypt
  dsimp only
  set ct := mask pt (stream (session key nonce) pt.length)
  have hlen : ct.length = pt.length := length_mask ..
  rw [List.length_append, htag, Nat.add_sub_cancel, List.take_left, List.drop_left, if_pos rfl, hlen,
    mask_mask]

end XChaCha20Poly1305
