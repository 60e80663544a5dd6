import Mathlib
import Rhex.Lib.Memory

/-!
# Computations that read from a buffer

A parser of untrusted bytes is safe when it reads none behind the end of its input. A `Traced`
computation keeps the list of its accesses, each an offset and a length, beside its result; it has
no result when it gives up.

* `Traced.Within` — all bytes that were read are among the first `n`.
* `Traced.within_bind`, `Traced.result_bind` — the rules for a sequence of computations.
-/

namespace Memory

/-- An access to `len` bytes from offset `off` on. -/
structure Access where
  off : Nat
  len : Nat
deriving DecidableEq

/-- Each byte of the access is one of the first `n`. -/
def Access.Within (n : Nat) (a : Access) : Prop := ∀ i < a.len, a.off + i < n

theorem Access.within_iff {n : Nat} {a : Access} : a.Within n ↔ a.len = 0 ∨ a.off + a.len ≤ n := by
  constructor
  · intro h
    cases hlen : a.len with
    | zero => exact Or.inl rfl
    | succ k => exact Or.inr (h k (by omega))
  · rintro (h | h) i hi
    · omega
    · omega

instance (n : Nat) (a : Access) : Decidable (a.Within n) := decidable_of_iff' _ Access.within_iff

/-- A computation with its accesses. -/
structure Traced (α : Type*) where
  reads : List Access
  result : Option α

namespace Traced

variable {α β : Type} {b : Buf} {off n : Nat}

/-- The result `a`, without access. -/
def done (a : α) : Traced α := ⟨[], some a⟩

/-- Go on with a result, unless there is none. -/
def andThen (x : Traced α) (f : α → Traced β) : Traced β :=
  match x.result with
  | none => ⟨x.reads, none⟩
  | some a => ⟨x.reads ++ (f a).reads, (f a).result⟩

instance : Monad Traced where
  pure := done
  bind := andThen

/-- Give up. -/
def fail : Traced α := ⟨[], none⟩

/-- The result of a computation without access. -/
def ofOption (o : Option α) : Traced α := ⟨[], o⟩

def access (off len : Nat) : Traced Unit := ⟨[⟨off, len⟩], some ()⟩

def load8 (b : Buf) (off : Nat) : Traced UInt8 := ⟨[⟨off, 1⟩], some (b off)⟩

def load16 (b : Buf) (off : Nat) : Traced UInt16 := ⟨[⟨off, 2⟩], some (read16 b off)⟩

def load32 (b : Buf) (off : Nat) : Traced UInt32 := ⟨[⟨off, 4⟩], some (read32 b off)⟩

/-! ## Results -/

@[simp] theorem result_pure (a : α) : (pure a : Traced α).result = some a := rfl

@[simp] theorem result_bind (x : Traced α) (f : α → Traced β) :
    (x >>= f).result = x.result.bind fun a => (f a).result := by
  change (andThen x f).result = _
  unfold andThen
  cases x.result <;> rfl

@[simp] theorem result_fail : (fail : Traced α).result = none := rfl

@[simp] theorem result_ofOption (o : Option α) : (ofOption o).result = o := rfl

@[simp] theorem result_access (off len : Nat) : (access off len).result = some () := rfl

@[simp] theorem result_load8 : (load8 b off).result = some (b off) := rfl

@[simp] theorem result_load16 : (load16 b off).result = some (read16 b off) := rfl

@[simp] theorem result_load32 : (load32 b off).result = some (read32 b off) := rfl

/-! ## Accesses -/

/-- The computation reads the first `n` bytes only. -/
def Within (n : Nat) (x : Traced α) : Prop := ∀ a ∈ x.reads, a.Within n

@[simp] theorem within_pure (a : α) : (pure a : Traced α).Within n :=
  fun _ h => absurd h List.not_mem_nil

@[simp] theorem within_fail : (fail : Traced α).Within n := fun _ h => absurd h List.not_mem_nil

@[simp] theorem within_ofOption (o : Option α) : (ofOption o).Within n :=
  fun _ h => absurd h List.not_mem_nil

@[simp] theorem within_bind (x : Traced α) (f : α → Traced β) :
    (x >>= f).Within n ↔ x.Within n ∧ ∀ a, x.result = some a → (f a).Within n := by
  change (andThen x f).Within n ↔ _
  unfold andThen
  cases hx : x.result with
  | none => exact ⟨fun h => ⟨h, fun a ha => absurd ha (by simp)⟩, fun h => h.1⟩
  | some a =>
    simp only [Within, List.mem_append, or_imp, forall_and, Option.some.injEq, forall_eq']

@[simp] theorem within_access (len : Nat) :
    (access off len).Within n ↔ (⟨off, len⟩ : Access).Within n := List.forall_mem_singleton

@[simp] theorem within_load8 : (load8 b off).Within n ↔ off + 1 ≤ n :=
  List.forall_mem_singleton.trans (by simp [Access.within_iff])

@[simp] theorem within_load16 : (load16 b off).Within n ↔ off + 2 ≤ n :=
  List.forall_mem_singleton.trans (by simp [Access.within_iff])

@[simp] theorem within_load32 : (load32 b off).Within n ↔ off + 4 ≤ n :=
  List.forall_mem_singleton.trans (by simp [Access.within_iff])

end Traced

end Memory
