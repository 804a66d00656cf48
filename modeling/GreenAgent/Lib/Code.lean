import GreenAgent.Lib.BigEndian

namespace GreenAgent.Code

-- A word can be read off the front of whatever follows it.
def SelfDelimiting (dom : α → Prop) (encode : α → List β) : Prop :=
  ∀ a b,dom a → dom b → ∀ x y,encode a ++ x = encode b ++ y → a = b ∧ x = y

section Codes
variable {α β γ σ : Type} {dom : α → Prop} {dom' : γ → Prop} {encode : α → List σ} {encode' : γ → List σ}

theorem SelfDelimiting.inj (code : SelfDelimiting dom encode) {a b : α} (inside : dom a) (inside' : dom b) (same : encode a = encode b) : a = b := by
  refine (code a b inside inside' [] [] ?_).1
  rw [same]

theorem SelfDelimiting.seq (first : SelfDelimiting dom encode) (second : SelfDelimiting dom' encode') :
    SelfDelimiting (fun pair : α × γ => dom pair.1 ∧ dom' pair.2) (fun pair => encode pair.1 ++ encode' pair.2) := by
  rintro ⟨a,c⟩ ⟨b,d⟩ ⟨inA,inC⟩ ⟨inB,inD⟩ x y same
  rw [List.append_assoc,List.append_assoc] at same
  obtain ⟨rfl,rest⟩ := first a b inA inB _ _ same
  obtain ⟨rfl,tail⟩ := second c d inC inD _ _ rest
  exact ⟨rfl,tail⟩

theorem SelfDelimiting.framed (code : SelfDelimiting dom encode) (opening closing : List σ) :
    SelfDelimiting dom (fun a => opening ++ encode a ++ closing) := by
  intro a b inA inB x y same
  simp only [List.append_assoc,List.append_cancel_left_eq] at same
  obtain ⟨rfl,rest⟩ := code a b inA inB _ _ same
  exact ⟨rfl,List.append_cancel_left rest⟩

theorem SelfDelimiting.of_inj (code : SelfDelimiting dom encode) {f : γ → α} (inj : ∀ c d,dom' c → dom' d → f c = f d → c = d)
    (inside : ∀ c,dom' c → dom (f c)) : SelfDelimiting dom' (fun c => encode (f c)) := by
  intro c d inC inD x y same
  obtain ⟨shared,rest⟩ := code _ _ (inside c inC) (inside d inD) x y same
  exact ⟨inj c d inC inD shared,rest⟩

theorem SelfDelimiting.sum (first : SelfDelimiting dom encode) (second : SelfDelimiting dom' encode')
    (apart : ∀ a c,dom a → dom' c → ∀ x y,encode a ++ x ≠ encode' c ++ y) :
    SelfDelimiting (fun either : α ⊕ γ => either.elim dom dom') (fun either => either.elim encode encode') := by
  rintro (a | c) (b | d) inside inside' x y same
  · obtain ⟨rfl,rest⟩ := first a b inside inside' x y same
    exact ⟨rfl,rest⟩
  · exact absurd same (apart a d inside inside' x y)
  · exact absurd same.symm (apart b c inside' inside y x)
  · obtain ⟨rfl,rest⟩ := second c d inside inside' x y same
    exact ⟨rfl,rest⟩

end Codes

-- The head of a CBOR item: the major type, and a number in the fewest bytes.
section Header

def tag (n : Nat) : Nat := if n ≤ 23 then n else if n ≤ 0xff then 24 else if n ≤ 0xffff then 25 else if n ≤ 0xffffffff then 26 else 27

def width (n : Nat) : Nat := if n ≤ 23 then 0 else if n ≤ 0xff then 1 else if n ≤ 0xffff then 2 else if n ≤ 0xffffffff then 4 else 8

def header (major n : Nat) : List UInt8 := UInt8.ofNat (major + tag n) :: BigEndian.bigEndian (width n) n

theorem tag_le (n : Nat) : tag n ≤ 27 := by
  unfold tag
  split_ifs <;> omega

theorem width_bounds {n : Nat} (small : n < 2^64) : tag n ≤ 23 ∧ tag n = n ∨ 24 ≤ tag n ∧ n < 256 ^ width n := by
  unfold tag width
  split_ifs <;> omega

theorem width_of_tag {n m : Nat} (large : 24 ≤ tag n) (same : tag n = tag m) : width n = width m := by
  unfold tag at large same
  unfold width
  split_ifs at * <;> omega

theorem header_head {major n : Nat} (small : major ≤ 0xa0) : (UInt8.ofNat (major + tag n)).toNat = major + tag n := by
  have bound := tag_le n
  refine UInt8.toNat_ofNat_of_lt' ?_
  change major + tag n < 256
  omega

theorem header_selfDelimiting {major : Nat} (small : major ≤ 0xa0) : SelfDelimiting (fun n => n < 2^64) (header major) := by
  intro n m inN inM x y same
  obtain ⟨heads,rest⟩ := List.cons.inj same
  have tags : tag n = tag m := by
    have numbers := congrArg UInt8.toNat heads
    rw [header_head small,header_head small] at numbers
    omega
  rcases width_bounds inN with ⟨low,here⟩ | ⟨high,fits⟩
  · rcases width_bounds inM with ⟨_,here'⟩ | ⟨high',_⟩
    · obtain rfl : n = m := here.symm.trans (tags.trans here')
      exact ⟨rfl,List.append_cancel_left rest⟩
    · omega
  · rcases width_bounds inM with ⟨low',_⟩ | ⟨_,fits'⟩
    · omega
    · have widths := width_of_tag high tags
      rw [← widths] at rest fits'
      obtain ⟨digits,tail⟩ := List.append_inj rest (by rw [BigEndian.bigEndian_length,BigEndian.bigEndian_length])
      exact ⟨BigEndian.bigEndian_inj fits fits' digits,tail⟩

theorem counted_selfDelimiting {major : Nat} (small : major ≤ 0xa0) :
    SelfDelimiting (fun s : List UInt8 => s.length < 2^64) (fun s => header major s.length ++ s) := by
  intro s t inS inT x y same
  rw [List.append_assoc,List.append_assoc] at same
  obtain ⟨lengths,rest⟩ := header_selfDelimiting small _ _ inS inT _ _ same
  obtain ⟨strings,tail⟩ := List.append_inj rest lengths
  exact ⟨strings,tail⟩

end Header
end GreenAgent.Code
