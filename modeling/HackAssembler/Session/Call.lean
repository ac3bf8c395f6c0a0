import HackAssembler.Session.Basic

/-! A session and its files, driven by calls. A call that fails is answered by its failure, and the next one goes
on. -/
namespace HackAssembler

/-- What can be asked of a session. -/
inductive Call where
  | settings
  | assembleSource (file source : Text)
  | assembleLines (file : Text) (lines : List Text)
  | assembleFile (path : Text)
  | words
  | symbols
  | table
  | listing
  | writeWords (path : Text)
  | writeSymbols (path : Text) (withPredefined : Bool)
  | writeListing (path : Text)
  deriving DecidableEq, Repr

/-- What a call that succeeds is answered. -/
inductive Answer where
  | settings (strictLabels : Bool) (settings : Settings)
  | words (words : List Text)
  | symbols (symbols : List Symbol)
  | table (table : Option SymbolTable)
  | listing (text : Text)
  | written

/-- A session among files. -/
structure Workplace where
  session : Session
  tree : FileTree

namespace Workplace

private def assembled (w : Workplace) (run : Except Failure (List Text) × Session) :
    Except Failure Answer × Workplace :=
  (run.1.map .words, { w with session := run.2 })

private def written (w : Workplace) : Except FileFault FileTree → Except Failure Answer × Workplace
  | .error f => (.error (.file f), w)
  | .ok tree => (.ok .written, { w with tree })

def perform (w : Workplace) : Call → Except Failure Answer × Workplace
  | .settings => (.ok (.settings w.session.strictLabels w.session.settings), w)
  | .assembleSource file source => w.assembled (w.session.assembleSource file source)
  | .assembleLines file lines => w.assembled (w.session.assembleLines file lines)
  | .assembleFile path => w.assembled (w.session.assembleFile w.tree path)
  | .words => (.ok (.words w.session.words), w)
  | .symbols => (.ok (.symbols w.session.symbols), w)
  | .table => (.ok (.table w.session.table?), w)
  | .listing => (.ok (.listing w.session.listing), w)
  | .writeWords path => w.written (w.session.writeWords w.tree path)
  | .writeSymbols path withPredefined => w.written (w.session.writeSymbols w.tree path withPredefined)
  | .writeListing path => w.written (w.session.writeListing w.tree path)

/-- The workplace behind a sequence of calls. -/
def performAll (w : Workplace) (calls : List Call) : Workplace :=
  calls.foldl (fun w call => (w.perform call).2) w

@[simp] theorem performAll_nil (w : Workplace) : w.performAll [] = w := rfl

@[simp] theorem performAll_cons (w : Workplace) (call : Call) (calls : List Call) :
    w.performAll (call :: calls) = (w.perform call).2.performAll calls := rfl

end Workplace

end HackAssembler
