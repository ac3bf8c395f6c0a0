import HackAssembler.Program.Encoding

/-! A context, taken through steps. A step that fails is answered by its failure, and the next one goes on. -/
namespace HackAssembler

/-- What can be done in a context. -/
inductive Step where
  /-- Binds a name in the table. -/
  | bind (s : Symbol)
  /-- Makes a name the next variable. -/
  | allocate (name : Text)
  /-- Encodes one instruction. -/
  | encode (line : Text) (index : Option Int)
  deriving DecidableEq, Repr

/-- What a step that succeeds is answered. -/
inductive Step.Answer where
  | address (value : Int)
  | word (word : Text)
  deriving DecidableEq, Repr

namespace Context

def perform (c : Context) : Step → Except Failure Step.Answer × Context
  | .bind s =>
    let (address, table) := c.table.bind s
    (.ok (.address address), { c with table })
  | .allocate name =>
    let (address, next) := c.allocate name
    (address.map .address, next)
  | .encode line index =>
    (((Encoding.instruction c line index).mapError Failure.raised).map .word, c.after line)

/-- Encodes lines on the table of a context, in a context of their own that starts with the first variable address. -/
def encode (c : Context) (lines : List Text) : Except Failure (List Text) × Context :=
  let (words, left) := Encoding.program c.table lines
  (words.mapError Failure.raised, { c with table := left.table })

/-- The context behind a sequence of steps. -/
def performAll (c : Context) (steps : List Step) : Context :=
  steps.foldl (fun c step => (c.perform step).2) c

@[simp] theorem performAll_nil (c : Context) : c.performAll [] = c := rfl

@[simp] theorem performAll_cons (c : Context) (step : Step) (steps : List Step) :
    c.performAll (step :: steps) = (c.perform step).2.performAll steps := rfl

end Context

end HackAssembler
