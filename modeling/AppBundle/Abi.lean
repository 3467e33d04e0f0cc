import AppBundle.OrderedSet
import AppBundle.ValueError

/-!
# Processor architectures

The architectures a native library can be built for, with the directory name of
each and the order in which they are listed. The main statement is that the
name of an architecture reads back as that architecture and nothing else does.
-/

namespace AppBundle

/-- An application binary interface, the processor architecture of native code. -/
inductive Abi where
  | armeabi
  | armeabiV7a
  | arm64V8a
  | x86
  | x86_64
  | mips
  | mips64
  | riscv64
  deriving DecidableEq, Inhabited

namespace Abi

/-- All architectures in their order. -/
def all : List Abi := [armeabi, armeabiV7a, arm64V8a, x86, x86_64, mips, mips64, riscv64]

/-- The name of the directory that holds the native libraries. -/
def name : Abi → String
  | armeabi => "armeabi"
  | armeabiV7a => "armeabi-v7a"
  | arm64V8a => "arm64-v8a"
  | x86 => "x86"
  | x86_64 => "x86_64"
  | mips => "mips"
  | mips64 => "mips64"
  | riscv64 => "riscv64"

/-- Whether the architecture has 64-bit addresses. -/
def is64Bit : Abi → Bool
  | arm64V8a | x86_64 | mips64 | riscv64 => true
  | armeabi | armeabiV7a | x86 | mips => false

/-- The architecture of a directory name. -/
def ofName? (s : String) : Option Abi := all.find? (·.name = s)

/-- Reads the name of an architecture. -/
def parse (s : String) : Except ValueError Abi :=
  match ofName? s with
  | some a => .ok a
  | none => .error (.unknownAbi s)

/-- The place in the order. -/
def rank : Abi → Nat
  | armeabi => 0
  | armeabiV7a => 1
  | arm64V8a => 2
  | x86 => 3
  | x86_64 => 4
  | mips => 5
  | mips64 => 6
  | riscv64 => 7

instance : Ord Abi := ⟨compareOn rank⟩

instance : Std.TransOrd Abi := inferInstanceAs (Std.TransCmp (compareOn rank))

theorem rank_injective {a b : Abi} (h : a.rank = b.rank) : a = b := by
  cases a <;> cases b <;> first | rfl | cases h

instance : Std.LawfulEqOrd Abi where
  compare_self := Std.ReflOrd.compare_self (α := Nat)
  eq_of_compare h := rank_injective (Std.LawfulEqOrd.eq_of_compare (α := Nat) h)

@[simp] theorem mem_all (a : Abi) : a ∈ all := by cases a <;> decide

theorem name_injective {a b : Abi} (h : a.name = b.name) : a = b := by
  revert h; cases a <;> cases b <;> decide

/-- A name belongs to the architecture it reads as, and to no other. -/
theorem ofName?_eq_some_iff {s : String} {a : Abi} : ofName? s = some a ↔ s = a.name := by
  constructor
  · intro h
    have hname := List.find?_some h
    exact (of_decide_eq_true hname).symm
  · rintro rfl
    cases a <;> decide

end Abi

end AppBundle
