import Uncurry.Command.Transform

/-!
# What arguments ask for

Options count wherever they stand, and what is no option is the operand, of which there is at most
one. `read_transform` says what is asked for if nothing is wrong and no help is wanted.
-/
namespace Uncurry.Command

variable {options result : Options} {arguments later : List Text} {argument : Text}

def isHelp (argument : Text) : Bool := isOneOf argument ["-h", "--help"]

def isWrite (argument : Text) : Bool := isOneOf argument ["-w", "--write"]

def isQuiet (argument : Text) : Bool := isOneOf argument ["-q", "--quiet"]

def isOption (argument : Text) : Bool := isHelp argument || isWrite argument || isQuiet argument

/-- An argument is a path or a program: it is no option, and no sign for the standard input. -/
def IsOperand (argument : Text) : Prop := isOption argument = false ∧ argument ≠ Text.ofString "-"

theorem read_cons (options : Options) (argument : Text) (later : List Text) :
    Request.read options (argument :: later) =
      if isHelp argument then .help
      else if isWrite argument then .read { options with write := true } later
      else if isQuiet argument then .read { options with quiet := true } later
      else match options.operand with
        | none => .read { options with operand := some argument } later
        | some _ => .surplus argument := rfl

/-- Help is given only where some argument asks for it. -/
theorem exists_isHelp (asked : Request.read options arguments = .help) :
    ∃ argument ∈ arguments, isHelp argument = true := by
  induction arguments generalizing options with
  | nil => cases asked
  | cons argument later ih =>
    have onwards {options : Options} (asked : Request.read options later = .help) :=
      (ih asked).imp fun _ => And.imp_left (List.mem_cons_of_mem argument)
    rw [read_cons] at asked
    split at asked
    · rename_i help
      exact ⟨argument, List.mem_cons_self, help⟩
    split at asked
    · exact onwards asked
    split at asked
    · exact onwards asked
    split at asked
    · exact onwards asked
    · cases asked

/-- What the arguments say if they ask for a transformation: none of them asks for help, and what is
no option is the operand. -/
theorem read_transform (asked : Request.read options arguments = .transform result) :
    (∀ argument ∈ arguments, isHelp argument = false) ∧
      result.write = (options.write || arguments.any isWrite) ∧
      result.operand.toList = options.operand.toList ++ arguments.filter (!isOption ·) := by
  induction arguments generalizing options with
  | nil =>
    cases asked
    simp
  | cons argument later ih =>
    rw [read_cons] at asked
    split at asked
    · cases asked
    rename_i help
    rw [Bool.not_eq_true] at help
    split at asked
    · rename_i write
      obtain ⟨others, writes, operands⟩ := ih asked
      exact ⟨List.forall_mem_cons.2 ⟨help, others⟩, by simp [writes, write],
        by simp [operands, isOption, write]⟩
    rename_i write
    rw [Bool.not_eq_true] at write
    split at asked
    · rename_i quiet
      obtain ⟨others, writes, operands⟩ := ih asked
      exact ⟨List.forall_mem_cons.2 ⟨help, others⟩, by simp [writes, write],
        by simp [operands, isOption, quiet]⟩
    rename_i quiet
    rw [Bool.not_eq_true] at quiet
    split at asked
    · rename_i none
      obtain ⟨others, writes, operands⟩ := ih asked
      exact ⟨List.forall_mem_cons.2 ⟨help, others⟩, by simp [writes, write],
        by simp [operands, none, isOption, help, write, quiet]⟩
    · cases asked

/-- The same said of arguments as a whole. -/
theorem ofArguments_transform (asked : Request.ofArguments arguments = .transform result) :
    (∀ argument ∈ arguments, isHelp argument = false) ∧ result.write = arguments.any isWrite ∧
      result.operand.toList = arguments.filter (!isOption ·) :=
  read_transform asked

/-- Behind the option that asks for quiet, an operand is the program or its path. -/
theorem IsOperand.asked (h : IsOperand argument) :
    Request.ofArguments [Text.ofString "-q", argument] =
      .transform ⟨false, true, some argument⟩ := by
  have other := h.1
  simp only [isOption, Bool.or_eq_false_iff] at other
  have quiet : Request.ofArguments [Text.ofString "-q", argument] =
      Request.read ⟨false, true, none⟩ [argument] := rfl
  rw [quiet, read_cons, other.1.1, other.1.2, other.2]
  rfl

end Uncurry.Command
