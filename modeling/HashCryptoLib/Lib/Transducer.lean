import Mathlib.Data.List.Basic
import Mathlib.Data.UInt

/-!
Letter-by-letter transducers and, as one of them, cipher feedback over an
arbitrary block function. A transducer may be fed its input in pieces; two
transducers over one state space are inverse when their steps are. Feedback
encryption and decryption are inverse for every block function, because both
use it in the forward direction only.
-/

/-- A synchronous transducer: one output letter and a new state per letter. -/
structure Transducer (σ α β : Type*) where
  step : σ → α → β × σ

namespace Transducer

variable {σ α β : Type*} (t : Transducer σ α β)

/-- The outputs along a word, and the state behind it. -/
def run : σ → List α → List β × σ
  | s, [] => ([], s)
  | s, a :: as => ((t.step s a).1 :: (run (t.step s a).2 as).1, (run (t.step s a).2 as).2)

@[simp] theorem run_nil (s : σ) : t.run s [] = ([], s) := rfl

@[simp] theorem run_cons (s : σ) (a : α) (as : List α) :
    t.run s (a :: as) =
      ((t.step s a).1 :: (t.run (t.step s a).2 as).1, (t.run (t.step s a).2 as).2) := rfl

/-- Feeding a word in two pieces. -/
theorem run_append (s : σ) (as bs : List α) :
    t.run s (as ++ bs) =
      ((t.run s as).1 ++ (t.run (t.run s as).2 bs).1, (t.run (t.run s as).2 bs).2) := by
  induction as generalizing s with
  | nil => rfl
  | cons a as ih => simp [ih]

@[simp] theorem length_run (s : σ) (as : List α) : (t.run s as).1.length = as.length := by
  induction as generalizing s with
  | nil => rfl
  | cons a as ih => simp [ih]

/-- `u` undoes `t` step by step, in lockstep. -/
def Inverse (t : Transducer σ α β) (u : Transducer σ β α) : Prop :=
  ∀ s a, u.step s (t.step s a).1 = (a, (t.step s a).2)

theorem Inverse.run_run {t : Transducer σ α β} {u : Transducer σ β α} (h : t.Inverse u) (s : σ)
    (as : List α) : u.run s (t.run s as).1 = (as, (t.run s as).2) := by
  induction as generalizing s with
  | nil => rfl
  | cons a as ih => simp [h s a, ih]

end Transducer

namespace CipherFeedback

variable {n : ℕ}

/-- A block of `n` octets. -/
abbrev Block (n : ℕ) := { b : List UInt8 // b.length = n }

/-- The register, and the ciphertext octets of the block being filled. -/
structure State (n : ℕ) where
  register : Block n
  filled : List UInt8
  filled_lt : filled.length < n

/-- The keystream octet for the next position. -/
def keystream (cipher : Block n → Block n) (s : State n) : UInt8 :=
  (cipher s.register).1.get ⟨s.filled.length, (cipher s.register).2.symm ▸ s.filled_lt⟩

/-- Taking in one ciphertext octet: a full block becomes the register. -/
def absorb (s : State n) (c : UInt8) : State n :=
  if h : (s.filled ++ [c]).length < n then ⟨s.register, s.filled ++ [c], h⟩
  else ⟨⟨s.filled ++ [c], by have := s.filled_lt; simp at h ⊢; omega⟩, [],
    by have := s.filled_lt; simp; omega⟩

def init (hn : 0 < n) (iv : Block n) : State n := ⟨iv, [], hn⟩

def encryptor (cipher : Block n → Block n) : Transducer (State n) UInt8 UInt8 where
  step s p := (p ^^^ keystream cipher s, absorb s (p ^^^ keystream cipher s))

def decryptor (cipher : Block n → Block n) : Transducer (State n) UInt8 UInt8 where
  step s c := (c ^^^ keystream cipher s, absorb s c)

theorem encryptor_inverse (cipher : Block n → Block n) :
    (encryptor cipher).Inverse (decryptor cipher) := by
  intro s p
  have hxor : p ^^^ keystream cipher s ^^^ keystream cipher s = p := by
    rw [UInt8.xor_assoc, UInt8.xor_self, UInt8.xor_zero]
  simp only [encryptor, decryptor, hxor]

end CipherFeedback
