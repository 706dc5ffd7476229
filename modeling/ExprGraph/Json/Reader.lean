import ExprGraph.Json.Library
import ExprGraph.Json.Nesting

set_option autoImplicit false

namespace ExprGraph.Json

variable {T : Type}

def take (accept : Content → Option T) (content : Content) (rest : List Token) :
    Except Fault (T × List Token) :=
  match accept content with
  | some v => .ok (v, rest)
  | none => .error .shape

-- One value inside of `outer` brackets. It is refused as soon as it has been read to its end,
-- whatever follows it.
def readValue (accept : Content → Option T) (outer : Nat) :
    List Token → Except Fault (T × List Token)
  | .scalar content :: rest => take accept content rest
  | first :: rest =>
    match Nesting.skip outer ⟨[], .value⟩ (first :: rest) with
    | some after => take accept (if first = .openArray then .list else .map) after
    | none => .error .malformed
  | [] => .error .malformed

theorem Nesting.length_of_skip {outer : Nat} {nesting : Nesting} {tokens after : List Token}
    (skipped : nesting.skip outer tokens = some after) : after.length < tokens.length := by
  induction tokens generalizing nesting with
  | nil => simp [skip] at skipped
  | cons token rest ih =>
    obtain ⟨next, _, rest_skipped⟩ := Option.bind_eq_some_iff.mp skipped
    split at rest_skipped
    next =>
      obtain rfl := Option.some.inj rest_skipped
      simp
    next =>
      have shorter := ih rest_skipped
      simp only [List.length_cons]
      omega

theorem take_eq_ok {accept : Content → Option T} {content : Content} {after rest : List Token}
    {v : T} (taken : take accept content after = .ok (v, rest)) :
    accept content = some v ∧ after = rest := by
  unfold take at taken
  split at taken
  next w accepted => simpa [accepted] using taken
  next => contradiction

theorem length_of_readValue {accept : Content → Option T} {outer : Nat} {tokens rest : List Token}
    {v : T} (reads : readValue accept outer tokens = .ok (v, rest)) :
    rest.length < tokens.length := by
  unfold readValue at reads
  split at reads
  next =>
    obtain ⟨_, rfl⟩ := take_eq_ok reads
    simp
  next =>
    split at reads
    next after skipped =>
      obtain ⟨_, rfl⟩ := take_eq_ok reads
      exact Nesting.length_of_skip skipped
    next => contradiction
  next => contradiction

def readElements (accept : Content → Option T) (tokens : List Token) : Except Fault (List T) :=
  match _reads : readValue accept 1 tokens with
  | .ok (v, [.closeArray]) => .ok [v]
  | .ok (v, .comma :: rest) => (readElements accept rest).map (v :: ·)
  | .ok _ => .error .malformed
  | .error fault => .error fault
termination_by tokens.length
decreasing_by
  have shorter := length_of_readValue _reads
  simp only [List.length_cons] at shorter
  omega

def plainReader : Reader T where
  value accept text :=
    match readValue accept 0 (tokens text) with
    | .ok (v, []) => .ok v
    | .ok _ => .error .malformed
    | .error fault => .error fault
  list accept text :=
    match tokens text with
    | [.openArray, .closeArray] => .ok []
    | .openArray :: rest => readElements accept rest
    | .scalar _ :: _ => .error .shape
    | .openObject :: _ => .error .shape
    | _ => .error .malformed
  double := readDouble?

def readLiteral (text : String) : Except Fault Literal :=
  plainReader.literal Content.plainTakers text

def readList (text : String) : Except Fault (List Literal) :=
  plainReader.literals Content.plainTakers text

end ExprGraph.Json
