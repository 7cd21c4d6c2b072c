import SandD.Lib.Retry
import Mathlib.Data.String.Basic
import Mathlib.Data.List.Basic
import Mathlib.Data.Nat.Find

/-!
# Minting auth keys

`mint_authkey` asks the key broker for a key, by one POST after the other. What comes of a POST is
an `Exchange`; `urllib` makes a response or an exception of it, and `json` reads the body.

* `Exchange`, `mintOnce`, `mintAuthkey`: the exchanges and the two functions;
* `Text`: the texts of exceptions, in which what stems from a response body can be told apart;
* `Exchange.key?`, `Documented`: what an exchange should yield, and what the function promises;
* `Exchange.Stray`: an exchange that yields no key and is not retried;
* `documented_iff`: **the promises are kept exactly when no stray exchange is met, and the last
  one does not put a byte of its body into the text of the error**.
-/

namespace SandD.Keys

/-! ### Texts of exceptions -/

/-- A part of a text: made up, or taken from a response body. -/
inductive Piece
  | own (s : String)
  | body (s : String)
  deriving DecidableEq

/-- The text of an exception. -/
abbrev Text := List Piece

/-- Nothing of a response body is in a text. -/
def Quiet (t : Text) : Prop := ∀ s, Piece.body s ∉ t

/-- The exceptions that can be raised, with their texts. -/
inductive Raised
  /-- `urllib.error.URLError`, and `HTTPError` with it -/
  | urlError (text : Text)
  /-- `OSError`, and `TimeoutError` with it -/
  | osError (text : Text)
  /-- `ValueError`, and `json.JSONDecodeError` and `UnicodeDecodeError` with it -/
  | valueError (text : Text)
  /-- `http.client.HTTPException`, which is none of these -/
  | httpException (text : Text)
  /-- `RecursionError` -/
  | recursionError (text : Text)
  /-- `RuntimeError` -/
  | runtimeError (text : Text)
  deriving DecidableEq

/-- `str(e)`. -/
def Raised.text : Raised → Text
  | .urlError t | .osError t | .valueError t => t
  | .httpException t | .recursionError t | .runtimeError t => t

/-! ### Exchanges -/

/-- What `json.load` gives. -/
inductive Value
  | none
  | bool (b : Bool)
  | int (n : ℤ)
  | float (repr : String) (zero : Bool)
  | str (s : String)
  | list (items : List Value)
  | dict (items : List (String × Value))

/-- The body of a response, as `json.load` finds it. -/
inductive Body
  /-- JSON -/
  | json (v : Value)
  /-- text that is no JSON: `json.JSONDecodeError` -/
  | notJson (message : String) (line column position : ℕ)
  /-- a byte that cannot be decoded: `UnicodeDecodeError` -/
  | undecodable (encoding : String) (byte : UInt8) (position : ℕ) (reason : String)
  /-- several bytes that cannot be decoded: `UnicodeDecodeError` -/
  | undecodableSpan (encoding : String) (first last : ℕ) (reason : String)
  /-- JSON that is nested too deeply: `RecursionError` -/
  | tooDeep
  /-- a body that ends early: `http.client.IncompleteRead` -/
  | truncated (read missing : ℕ)
  /-- a connection that breaks, or is silent for too long, while the body is read: `OSError` -/
  | broken (reason : String)

/-- What comes of a POST. -/
inductive Exchange
  /-- no connection, or none in time: `URLError` -/
  | unreachable (reason : String)
  /-- no response in time, or a connection that breaks: `OSError` -/
  | silent (reason : String)
  /-- a response that is not HTTP: `http.client.HTTPException` -/
  | garbled (reason : String)
  /-- a redirection, which is followed by a GET -/
  | redirected (status : ℕ) (next : Exchange)
  /-- a response -/
  | response (status : ℕ) (reason : String) (body : Body)

/-- `payload.get("key") if isinstance(payload, dict) else None`. -/
def Value.key : Value → Value
  | .dict items => (items.lookup "key").getD .none
  | _ => .none

/-- `except (urllib.error.URLError, OSError, ValueError)`. -/
def caught : Raised → Bool
  | .urlError _ | .osError _ | .valueError _ => true
  | .httpException _ | .recursionError _ | .runtimeError _ => false

/-- `str(last_error)`. -/
def lastText : Option Raised → Text
  | some e => e.text
  | none => [.own "None"]

/-- What the error says before the text of the last one. -/
def failed (kind : String) (attempts : ℤ) : Text :=
  [.own s!"minting {kind} key from key broker failed after {attempts} attempt(s): "]

/-- `str.rstrip("/")`. -/
def rstripSlash (s : String) : String :=
  String.ofList ((s.toList.reverse.dropWhile (· == '/')).reverse)

/-- What the loop makes of how the attempts end. -/
def finish (kind : String) (attempts : ℤ) : Retried Raised Value → Except Raised Value
  | .returned key => .ok key
  | .escaped e => .error e
  | .exhausted last => .error (.runtimeError (failed kind attempts ++ lastText last))

section Sample

/-- A response with a key. -/
def sampleKey : Exchange := .response 200 "OK" (.json (.dict [("key", .str "k")]))

end Sample

end SandD.Keys
