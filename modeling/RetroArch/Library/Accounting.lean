/- A ledger of the resources a program acquires and releases. -/

import Mathlib.Data.Multiset.UnionInter

namespace RetroArch.Library.Accounting

variable {ρ : Type*}

@[ext] structure Ledger (ρ : Type*) where
  acquired : Multiset ρ
  released : Multiset ρ

def Ledger.acquire (l : Ledger ρ) (r : ρ) : Ledger ρ := { l with acquired := r ::ₘ l.acquired }

def Ledger.release (l : Ledger ρ) (r : ρ) : Ledger ρ := { l with released := r ::ₘ l.released }

@[simp] theorem acquire_acquired (l : Ledger ρ) (r : ρ) :
    (l.acquire r).acquired = r ::ₘ l.acquired := rfl

@[simp] theorem acquire_released (l : Ledger ρ) (r : ρ) :
    (l.acquire r).released = l.released := rfl

@[simp] theorem release_acquired (l : Ledger ρ) (r : ρ) :
    (l.release r).acquired = l.acquired := rfl

@[simp] theorem release_released (l : Ledger ρ) (r : ρ) :
    (l.release r).released = r ::ₘ l.released := rfl

/-- Nothing is acquired twice, and what is acquired is either released once or held. -/
structure Accounts (l : Ledger ρ) (held : Multiset ρ) : Prop where
  once : l.acquired.Nodup
  split : l.acquired = l.released + held

variable {l : Ledger ρ} {held : Multiset ρ} {r : ρ}

theorem Accounts.acquire (h : Accounts l held) (hr : r ∉ l.acquired) :
    Accounts (l.acquire r) (r ::ₘ held) := by
  constructor
  · exact Multiset.nodup_cons.mpr ⟨hr, h.once⟩
  · rw [acquire_acquired, acquire_released, h.split, Multiset.add_cons]

theorem Accounts.release (h : Accounts l (r ::ₘ held)) : Accounts (l.release r) held := by
  constructor
  · exact h.once
  · rw [release_acquired, release_released, h.split, Multiset.add_cons, Multiset.cons_add]

theorem Accounts.mem (h : Accounts l held) (hr : r ∈ held) : r ∈ l.acquired := by
  rw [h.split]
  exact Multiset.mem_add.mpr (Or.inr hr)

end RetroArch.Library.Accounting
