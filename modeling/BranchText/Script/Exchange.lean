import BranchText.Script.Value
import BranchText.Settings.Basic

/-!
# What a script asks of its surroundings

A script by itself only computes. For random numbers, for included documents and to register
functions, values and settings it turns to whoever runs it. An `Exchange` is a computation that
stops at each such request and goes on with the answer, so what a script can do to its
surroundings is exactly what the requests name.
-/

namespace BranchText

namespace Script

/-- Something that a script leaves behind for the document. -/
inductive Registration where
  | function (name : String) (callable : Callable)
  | value (name text : String)
  | settings (layer : SettingsLayer)
  deriving Repr

/-- What a script can ask. -/
inductive Request where
  /-- A number from zero up to, and not including, one. -/
  | fraction
  /-- A number from zero up to, and not including, `high`. -/
  | below (high : Float)
  /-- An integer from `low` up to, and not including, `high`. -/
  | integer (low high : Int)
  /-- The text of an included document. -/
  | document (path : String)
  /-- Keeps what is registered. -/
  | keep (registration : Registration)
  deriving Repr

/-- What a request is answered with. A document that cannot be had is answered with the reason. -/
def Request.Answer : Request → Type
  | .fraction => Float
  | .below _ => Float
  | .integer _ _ => Int
  | .document _ => Except String String
  | .keep _ => Unit

/-- A computation that asks and goes on with the answers. -/
inductive Exchange (α : Type) where
  | done (value : α)
  | ask (request : Request) (resume : request.Answer → Exchange α)

namespace Exchange

variable {α β : Type}

/-- Goes on with the value of a computation. -/
def bind : Exchange α → (α → Exchange β) → Exchange β
  | done value, next => next value
  | ask request resume, next => ask request fun answer => (resume answer).bind next

instance : Monad Exchange where
  pure := done
  bind := bind

/-- Asks one request. -/
def request (request : Request) : Exchange request.Answer := ask request done

/-- Runs a computation, each request being answered by `answer`. -/
def run {m : Type → Type} [Monad m] (answer : (request : Request) → m request.Answer) :
    Exchange α → m α
  | done value => pure value
  | ask request resume => do (resume (← answer request)).run answer

@[simp]
theorem run_done {m : Type → Type} [Monad m] (answer : (request : Request) → m request.Answer)
    (value : α) : (done value).run answer = pure value := rfl

@[simp]
theorem run_ask {m : Type → Type} [Monad m] (answer : (request : Request) → m request.Answer)
    (request : Request) (resume : request.Answer → Exchange α) :
    (ask request resume).run answer =
      answer request >>= fun reply => (resume reply).run answer := rfl

end Exchange

end Script

end BranchText
