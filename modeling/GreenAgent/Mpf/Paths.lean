import GreenAgent.Mpf.Model

namespace GreenAgent.Mpf

-- The digit an in-range `nibble` returns. Total, so that statements about whole
-- paths need no bound on every read.
def digit (path : Digest) (index : Nat) : Nat :=
  let byte := path.bytes.getD (index/2) 0
  if index % 2 = 0 then (byte/16).toNat else (byte%16).toNat

def digits (path : Digest) (start stop : Nat) : Bytes :=
  (List.range' start (stop-start)).map (fun ix => UInt8.ofNat (digit path ix))

def suffixBytes (path : Digest) (cursor : Nat) : Bytes :=
  if cursor % 2 = 0 then 0xff :: path.bytes.drop (cursor/2)
  else 0 :: UInt8.ofNat (digit path cursor) :: path.bytes.drop ((cursor+1)/2)

theorem digest_eq {left right : Digest} (bytes : left.bytes = right.bytes) : left = right := by
  cases left; cases right; cases bytes; rfl

theorem digit_lt (path : Digest) (index : Nat) : digit path index < 16 := by
  unfold digit
  dsimp only
  split
  · have small := (path.bytes.getD (index/2) 0).toNat_lt
    simp only [UInt8.toNat_div]
    change _ / 16 < 16
    omega
  · simp only [UInt8.toNat_mod]
    change _ % 16 < 16
    omega

theorem ensureCursor_ok (bound : cursor ≤ 64) : ensureCursor cursor = .ok () := by
  simp [ensureCursor,Nat.not_lt.mpr bound]

theorem ensureCursor_exhausted (bound : 64 < cursor) : ensureCursor cursor = .error .pathExhausted := by
  simp [ensureCursor,bound]

theorem nibble_ok (bound : index < 64) : nibble path index = .ok (digit path index) := by
  unfold nibble digit
  rw [if_neg (by omega)]
  dsimp only
  split <;> rfl

theorem nibble_exhausted (bound : 64 ≤ index) : nibble path index = .error .pathExhausted := by
  simp [nibble,bound]

theorem mapM_ok (f : Nat → Except MpfError α) (g : Nat → α) (items : List Nat)
    (every : ∀ ix ∈ items, f ix = .ok (g ix)) : items.mapM f = .ok (items.map g) := by
  induction items with
  | nil => rfl
  | cons head rest ih =>
    have tail := ih (fun ix member => every ix (List.mem_cons_of_mem _ member))
    simp only [List.mapM_cons,every head (List.mem_cons_self ..),tail,List.map_cons]
    rfl

theorem nibbles_ok (order : start ≤ stop) (bound : stop ≤ 64) :
    nibbles path start stop = .ok (digits path start stop) := by
  unfold nibbles digits
  rw [if_neg (by omega)]
  apply mapM_ok
  intro ix member
  have range := List.mem_range'_1.mp member
  rw [nibble_ok (by omega)]
  rfl

theorem nibbles_exhausted (bound : 64 < stop) : nibbles path start stop = .error .pathExhausted := by
  unfold nibbles
  rw [if_pos (.inr bound)]

theorem suffix_ok (bound : cursor ≤ 64) : suffix path cursor = .ok (suffixBytes path cursor) := by
  unfold suffix suffixBytes
  rw [ensureCursor_ok bound]
  by_cases even : cursor % 2 = 0
  · simp only [if_pos even]; rfl
  · have inside : cursor < 64 := by omega
    simp only [if_neg even,nibble_ok inside]; rfl

theorem suffix_exhausted (bound : 64 < cursor) : suffix path cursor = .error .pathExhausted := by
  unfold suffix
  rw [ensureCursor_exhausted bound]
  rfl

theorem digits_length (path : Digest) (start stop : Nat) : (digits path start stop).length = stop-start := by
  simp [digits]

theorem digits_self (path : Digest) (start : Nat) : digits path start start = [] := by
  simp [digits]

theorem digits_append (first : start ≤ mid) (second : mid ≤ stop) :
    digits path start mid ++ digits path mid stop = digits path start stop := by
  unfold digits
  rw [← List.map_append]
  have range : List.range' start (stop-start) = List.range' start (mid-start) ++ List.range' mid (stop-mid) := by
    have parts := @List.range'_append_1 start (mid-start) (stop-mid)
    rw [show start+(mid-start) = mid by omega,show mid-start+(stop-mid) = stop-start by omega] at parts
    exact parts.symm
  rw [range]

theorem digits_cons (inside : start < stop) :
    digits path start stop = UInt8.ofNat (digit path start) :: digits path (start+1) stop := by
  unfold digits
  rw [show stop-start = (stop-(start+1))+1 by omega,List.range'_succ,List.map_cons]

theorem digits_congr (same : ∀ ix, start ≤ ix → ix < stop → digit left ix = digit right ix) :
    digits left start stop = digits right start stop := by
  apply List.map_congr_left
  intro ix member
  have range := List.mem_range'_1.mp member
  rw [same ix range.1 (by omega)]

theorem ofNat_digit_inj (equal : UInt8.ofNat (digit left i) = UInt8.ofNat (digit right j)) :
    digit left i = digit right j := by
  have lt := digit_lt left i
  have lt' := digit_lt right j
  have nat := congrArg UInt8.toNat equal
  simp only [UInt8.toNat_ofNat'] at nat
  omega

theorem digits_inj (equal : digits left start stop = digits right start stop) :
    ∀ ix, start ≤ ix → ix < stop → digit left ix = digit right ix := by
  intro ix lower upper
  have entry := congrArg (fun l => l[ix-start]?) equal
  have inside : ix-start < stop-start := by omega
  simp only [digits,List.getElem?_map,List.getElem?_range' inside,Option.map_some,Option.some.injEq] at entry
  rw [show start+1*(ix-start) = ix by omega] at entry
  exact ofNat_digit_inj entry

theorem byte_of_digits (path : Digest) (index : Nat) :
    (path.bytes.getD index 0).toNat = 16*digit path (2*index)+digit path (2*index+1) := by
  unfold digit
  have even : 2*index % 2 = 0 := by omega
  have odd : ¬(2*index+1) % 2 = 0 := by omega
  have half : 2*index/2 = index := by omega
  have half' : (2*index+1)/2 = index := by omega
  simp only [even,odd,half,half',if_true,if_false,UInt8.toNat_div,UInt8.toNat_mod]
  change _ = 16*(_/16)+_%16
  omega

theorem path_ext (same : ∀ ix < 64, digit left ix = digit right ix) : left = right := by
  apply digest_eq
  apply List.ext_getElem?
  intro index
  by_cases inside : index < 32
  · have one := same (2*index) (by omega)
    have two := same (2*index+1) (by omega)
    have bytes : (left.bytes.getD index 0).toNat = (right.bytes.getD index 0).toNat := by
      rw [byte_of_digits,byte_of_digits,one,two]
    have equal := UInt8.toNat_inj.mp bytes
    have leftIn : index < left.bytes.length := by rw [left.size]; exact inside
    have rightIn : index < right.bytes.length := by rw [right.size]; exact inside
    simpa [List.getD_eq_getElem?_getD,List.getElem?_eq_getElem leftIn,List.getElem?_eq_getElem rightIn] using equal
  · rw [List.getElem?_eq_none (by rw [left.size]; omega),List.getElem?_eq_none (by rw [right.size]; omega)]

theorem path_diverges (different : left ≠ right) : ∃ ix < 64, digit left ix ≠ digit right ix := by
  apply Classical.byContradiction
  intro none
  apply different
  apply path_ext
  intro ix bound
  apply Classical.byContradiction
  intro apart
  exact none ⟨ix,bound,apart⟩

end GreenAgent.Mpf
