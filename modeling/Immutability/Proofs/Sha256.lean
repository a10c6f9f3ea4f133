import Immutability.Sha256
import Mathlib.Algebra.Group.Nat.Defs
import Mathlib.Data.List.Basic

/-! What a written digest tells.

    Every part of a digest is written with as many digits as any other, so the text of a digest tells
    its words, and two texts have the same written digest exactly if the digests of their bytes are
    the same. -/

namespace Immutability.Sha256

/-! ### Blocks of one length -/

/-- A concatenation of blocks of one length tells the blocks. -/
theorem flatMap_inj_of_length {α β : Type} {f : α → List β} {n : Nat}
    (hl : ∀ a, (f a).length = n) (hf : ∀ a b, f a = f b → a = b) :
    ∀ {as bs : List α}, as.length = bs.length → as.flatMap f = bs.flatMap f → as = bs
  | [], [], _, _ => rfl
  | a :: as, b :: bs, h, he => by
    rw [List.flatMap_cons, List.flatMap_cons] at he
    obtain ⟨hab, hr⟩ := List.append_inj he ((hl a).trans (hl b).symm)
    rw [hf a b hab, flatMap_inj_of_length hl hf (Nat.succ.inj h) hr]

@[simp] theorem length_bigEndian (places n : Nat) : (bigEndian places n).length = places := by
  induction places generalizing n with
  | zero => rfl
  | succ places ih => simp [bigEndian, ih]

/-- The bytes of a number tell the number, if there are places enough. -/
theorem bigEndian_inj {places n m : Nat} (hn : n < 256 ^ places) (hm : m < 256 ^ places)
    (h : bigEndian places n = bigEndian places m) : n = m := by
  induction places generalizing n m with
  | zero => omega
  | succ places ih =>
    rw [Nat.pow_succ] at hn hm
    obtain ⟨hhigh, hlow⟩ := List.append_inj h (by simp)
    have hq : n / 256 = m / 256 :=
      ih (Nat.div_lt_of_lt_mul (by omega)) (Nat.div_lt_of_lt_mul (by omega)) hhigh
    have hr : n % 256 = m % 256 := by
      have := congrArg UInt8.toNat (List.singleton_inj.1 hlow)
      simpa using this
    omega

/-! ### Digits -/

theorem digitChar_inj : ∀ n < 16, ∀ m < 16, Nat.digitChar n = Nat.digitChar m → n = m := by decide

/-- The two digits of a byte tell the byte. -/
theorem digits_inj (b c : UInt8)
    (h : [Nat.digitChar (b.toNat / 16), Nat.digitChar (b.toNat % 16)] =
      [Nat.digitChar (c.toNat / 16), Nat.digitChar (c.toNat % 16)]) : b = c := by
  obtain ⟨hhigh, hlow⟩ : Nat.digitChar (b.toNat / 16) = Nat.digitChar (c.toNat / 16) ∧
      Nat.digitChar (b.toNat % 16) = Nat.digitChar (c.toNat % 16) := by simpa using h
  have hb := b.toNat_lt
  have hc := c.toNat_lt
  have hq := digitChar_inj _ (by omega) _ (by omega) hhigh
  have hr := digitChar_inj _ (by omega) _ (by omega) hlow
  exact UInt8.toNat_inj.1 (by omega)

@[simp] theorem length_hexWord (w : UInt32) : (hexWord w).length = 8 := by
  simp [hexWord, List.length_flatMap]

/-- The digits of a word tell the word. -/
theorem hexWord_inj (w x : UInt32) (h : hexWord w = hexWord x) : w = x := by
  have hb : bigEndian 4 w.toNat = bigEndian 4 x.toNat :=
    flatMap_inj_of_length (n := 2) (by simp) digits_inj (by simp) h
  exact UInt32.toNat_inj.1 (bigEndian_inj w.toNat_lt x.toNat_lt hb)

/-- A written digest tells the digest. -/
theorem State.hex_inj {s t : State} (h : s.hex = t.hex) : s = t := by
  have hw : [s.a, s.b, s.c, s.d, s.e, s.f, s.g, s.h] = [t.a, t.b, t.c, t.d, t.e, t.f, t.g, t.h] :=
    flatMap_inj_of_length length_hexWord hexWord_inj rfl (String.ofList_inj.1 h)
  cases s
  cases t
  simpa using hw

end Immutability.Sha256
