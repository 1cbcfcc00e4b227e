import CacheUsage.Counters
import CacheUsage.Reference

namespace CacheUsage

structure Stats where
  fetch : Counters
  read : Counters
  write : Counters
deriving DecidableEq

namespace Stats

def zero : Stats := ⟨.zero, .zero, .zero⟩

def get (s : Stats) : AccessKind → Counters
  | .fetch => s.fetch
  | .read => s.read
  | .write => s.write

def set (s : Stats) (kind : AccessKind) (c : Counters) : Stats :=
  match kind with
  | .fetch => { s with fetch := c }
  | .read => { s with read := c }
  | .write => { s with write := c }

def data (s : Stats) : Except Fault Counters := s.read.add s.write

def total (s : Stats) : Except Fault Counters := do s.fetch.add (← s.data)

@[simp] theorem get_zero (k : AccessKind) : zero.get k = .zero := by
  cases k <;> rfl

@[simp] theorem get_set_self (s : Stats) (k : AccessKind) (c : Counters) :
    (s.set k c).get k = c := by
  cases k <;> rfl

theorem get_set_of_ne (s : Stats) {k j : AccessKind} (c : Counters) (h : j ≠ k) :
    (s.set k c).get j = s.get j := by
  cases k <;> cases j <;> simp_all [get, set]

end Stats

end CacheUsage
