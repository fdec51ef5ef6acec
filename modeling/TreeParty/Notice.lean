import TreeParty.Fault
import TreeParty.Log.Line
/-!
# Notices

What an operation has to tell beside its result, and operations that have something to tell. A
notice becomes a log line; what is wrong with the data is a notice and no fault.
-/

namespace TreeParty

inductive Notice where
  | fewDistinct (samples distinct : Nat)
  | emptyDataset (path : String)
  | noColumns
  | inconsistentTriple (position : Nat)
  | unauthenticated
  /-- A connection reported an error while it was closed. -/
  | closing (engine : Int) (cause : String)
  /-- A link could not be closed. -/
  | linkClosing (engine : Int) (cause : String)
  /-- The fault that ends a run. -/
  | fatal (name message : String)
  deriving DecidableEq, Repr

namespace Notice

def line (m : Machine) : Notice → Log.Line
  | fewDistinct samples distinct =>
    Log.line m .warning "Feature has at most one distinct value, please check the dataset"
      [("samples", .int samples), ("distinct", .int distinct)]
  | emptyDataset path => Log.line m .warning "Dataset file is empty" [("path", .text path)]
  | noColumns => Log.line m .warning "Label holder dataset has no columns" []
  | inconsistentTriple position =>
    Log.line m .error "Incorrect triple, aborting" [("position", .int position)]
  | unauthenticated => Log.line m .error "Authenticated result check failed" []
  | closing engine cause =>
    Log.line m .warning "Error while closing engine connection"
      [("engine", .int engine), ("err", .text cause)]
  | linkClosing engine cause =>
    Log.line m .warning "Failed to close engine channel"
      [("engine", .int engine), ("err", .text cause)]
  | fatal name message =>
    Log.line m .error "Fatal client error" [("err_type", .text name), ("err", .text message)]

end Notice

/-- The result of an operation and the notices it gave, also before a fault. -/
structure Report (α : Type) where
  notices : List Notice
  result : Except Fault α

namespace Report

variable {α β : Type}

def ofResult (r : Except Fault α) : Report α := ⟨[], r⟩

def tell (n : Notice) : Report Unit := ⟨[n], .ok ()⟩

def fail (f : Fault) : Report α := ⟨[], .error f⟩

def bind (x : Report α) (next : α → Report β) : Report β :=
  match x.result with
  | .ok a => ⟨x.notices ++ (next a).notices, (next a).result⟩
  | .error f => ⟨x.notices, .error f⟩

instance : Monad Report where
  pure a := ⟨[], .ok a⟩
  bind := bind

instance : MonadLift (Except Fault) Report := ⟨ofResult⟩

end Report
end TreeParty
