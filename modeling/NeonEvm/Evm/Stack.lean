import NeonEvm.Error
import NeonEvm.Lib.Exec

/-!
# Evm/Stack — the stack of 32-byte words

The words between `begin` and `top`, the top one first.  `end` lies one element before the end of
the allocation, so a stack holds at most `STACK_LIMIT` words; the bound is a field.
-/

namespace NeonEvm

/-- `ELEMENT_SIZE`. -/
def ELEMENT_SIZE : ℕ := 32

/-- `STACK_SIZE`, in bytes. -/
def STACK_SIZE : ℕ := ELEMENT_SIZE * 128

/-- The words between `begin` and `end`. -/
def STACK_LIMIT : ℕ := STACK_SIZE / ELEMENT_SIZE - 1

/-- `evm::stack::Stack`, the top word first. -/
structure Stack where
  words : List U256
  bound : words.length ≤ STACK_LIMIT
  deriving DecidableEq

namespace Stack

/-- `Stack::new`. -/
def new : Stack := ⟨[], Nat.zero_le _⟩

def len (s : Stack) : ℕ := s.words.length

/-- `Stack::push` of a word: every `push_*` writes its word at `top` and then advances. -/
def push (s : Stack) (w : U256) : Except Error Stack :=
  if h : s.words.length < STACK_LIMIT then .ok ⟨w :: s.words, h⟩ else .error .stackOverflow

/-- `Stack::pop`. -/
def pop (s : Stack) : Except Error (U256 × Stack) :=
  match s with
  | ⟨[], _⟩ => .error .stackUnderflow
  | ⟨w :: ws, h⟩ => .ok (w, ⟨ws, (Nat.le_succ _).trans h⟩)

/-- `Stack::dup_1_16`. -/
def dup116 (n : ℕ) (s : Stack) : Except Error Stack :=
  match s.words[n - 1]? with
  | none => .error .stackUnderflow
  | some w => s.push w

/-- `Stack::swap_1_16`. -/
def swap116 (n : ℕ) (s : Stack) : Except Error Stack :=
  match s.words[0]?, s.words[n]? with
  | some a, some b =>
    .ok ⟨(s.words.set 0 b).set n a, by simpa using s.bound⟩
  | _, _ => .error .stackUnderflow

end Stack

end NeonEvm
