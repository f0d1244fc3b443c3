import Cowrie.Lib.OrderedDict
import Cowrie.Text

/-!
# The NEW-ENVIRON option (`src/cowrie/telnet/userauth.py:29-39`, `174-306`)

A client sends variables as `VAR name VALUE value` or `USERVAR name VALUE value`, one after the other and
without lengths; the four control bytes within a name or a value come after an `ESC`.

* `parseByte` is the body of the loop of `_parse_new_environ_data`, `save` what it does at the end of
  a variable.
* `encodeVariable` is the encoding of RFC 1572. `foldl_escaped`: an escaped text is appended to the field
  that is being read, whatever bytes are in it.
* **`parse_encoded`**: what is parsed is the dictionary of the last values.

`telnet_NEW_ENVIRON` hands the data of an `IS` or `INFO` command to the parser and stores what it returns
(`telnetNewEnviron`); its log messages and the exploit they report are left out.
-/

namespace Cowrie.Telnet

open Lib

/-! ## Parsing -/

/-- `NEW_ENVIRON_IS` and `NEW_ENVIRON_INFO`: the commands that send values. -/
def newEnvironIs : UInt8 := 0

def newEnvironInfo : UInt8 := 2

def newEnvironVar : UInt8 := 0

def newEnvironValue : UInt8 := 1

def newEnvironEsc : UInt8 := 2

def newEnvironUservar : UInt8 := 3

/-- The local state of `_parse_new_environ_data`. -/
structure Parse where
  envVars : OrderedDict String String := .empty
  currentName : Bytes := []
  currentValue : Bytes := []
  inValue : Bool := false
  escapeNext : Bool := false
  deriving DecidableEq

namespace Parse

/-- A byte of the name or of the value. -/
def append (p : Parse) (byte : UInt8) : Parse :=
  if p.inValue then { p with currentValue := p.currentValue ++ [byte] }
  else { p with currentName := p.currentName ++ [byte] }

/-- Save the variable, if there is one. -/
def save (p : Parse) : OrderedDict String String :=
  if p.currentName = [] then p.envVars
  else p.envVars.set (decodeReplace p.currentName) (decodeReplace p.currentValue)

/-- One turn of the loop. -/
def parseByte (p : Parse) (byte : UInt8) : Parse :=
  if p.escapeNext then { p.append byte with escapeNext := false }
  else if byte = newEnvironEsc then { p with escapeNext := true }
  else if byte = newEnvironVar ∨ byte = newEnvironUservar then { envVars := p.save }
  else if byte = newEnvironValue then { p with inValue := true }
  else p.append byte

end Parse

/-- `_parse_new_environ_data`. -/
def parseNewEnvironData (data : Bytes) : OrderedDict String String := (data.foldl Parse.parseByte {}).save

/-- `telnet_NEW_ENVIRON`, as far as `environ_received` goes. -/
def telnetNewEnviron (environReceived : OrderedDict String String) (data : List Bytes) :
    OrderedDict String String :=
  match data.flatten with
  | [] => environReceived
  | command :: rest =>
    if command = newEnvironIs ∨ command = newEnvironInfo then
      environReceived.update (parseNewEnvironData rest)
    else environReceived

/-! ## Encoding -/

/-- A variable with its value, well-known or of the user. -/
structure Variable where
  user : Bool
  name : String
  value : String
  name_ne : name ≠ ""

/-- The control bytes come after an `ESC`. -/
def escaped (b : Bytes) : Bytes := b.flatMap fun x => if x ≤ 3 then [newEnvironEsc, x] else [x]

/-- Type, name, `VALUE`, value. -/
def encodeVariable (v : Variable) : Bytes :=
  (if v.user then newEnvironUservar else newEnvironVar) ::
    (escaped (encode v.name) ++ newEnvironValue :: escaped (encode v.value))

/-- The last value of a name. -/
def lastValue (vars : List Variable) (name : String) : Option String :=
  (vars.reverse.find? fun v => v.name = name).map (·.value)

/-! ## What is read -/

open Parse

/-- A field of bytes. -/
def Parse.appendAll (p : Parse) (b : Bytes) : Parse :=
  if p.inValue then { p with currentValue := p.currentValue ++ b }
  else { p with currentName := p.currentName ++ b }

theorem appendAll_cons (p : Parse) (x : UInt8) (b : Bytes) : (p.append x).appendAll b = p.appendAll (x :: b) := by
  unfold Parse.append Parse.appendAll
  cases hvalue : p.inValue <;> simp

theorem escapeNext_append (p : Parse) (x : UInt8) : (p.append x).escapeNext = p.escapeNext := by
  unfold Parse.append
  split_ifs <;> rfl

/-- One byte of a field, escaped where it has to be. -/
theorem foldl_escapedByte {p : Parse} (hp : p.escapeNext = false) (x : UInt8) :
    (if x ≤ 3 then [newEnvironEsc, x] else [x]).foldl parseByte p = p.append x := by
  by_cases hx : x ≤ 3
  · rw [if_pos hx, List.foldl_cons, List.foldl_cons, List.foldl_nil]
    have hesc : p.parseByte newEnvironEsc = { p with escapeNext := true } := by
      unfold Parse.parseByte
      rw [hp]
      rfl
    rw [hesc]
    unfold Parse.parseByte Parse.append
    simp only [if_true]
    split_ifs
    · rw [← hp]
    · rw [← hp]
  · rw [if_neg hx, List.foldl_cons, List.foldl_nil]
    have hvar : ¬ (x = newEnvironVar ∨ x = newEnvironUservar) := by
      rintro (rfl | rfl) <;> exact hx (by decide)
    have hvalue : x ≠ newEnvironValue := by
      rintro rfl
      exact hx (by decide)
    have hesc : x ≠ newEnvironEsc := by
      rintro rfl
      exact hx (by decide)
    unfold Parse.parseByte
    rw [hp, if_neg Bool.false_ne_true, if_neg hesc, if_neg hvar, if_neg hvalue]

/-- **An escaped text is appended as it is.** -/
theorem foldl_escaped {p : Parse} (hp : p.escapeNext = false) (b : Bytes) :
    (escaped b).foldl parseByte p = p.appendAll b := by
  induction b generalizing p with
  | nil =>
    unfold Parse.appendAll
    split_ifs <;> simp [escaped]
  | cons x b ih =>
    have hcons : escaped (x :: b) = (if x ≤ 3 then [newEnvironEsc, x] else [x]) ++ escaped b := rfl
    rw [hcons, List.foldl_append, foldl_escapedByte hp, ih ((escapeNext_append p x).trans hp), appendAll_cons]

/-- The state in which a variable has been read. -/
def Parse.read (d : OrderedDict String String) (v : Variable) : Parse :=
  { envVars := d, currentName := encode v.name, currentValue := encode v.value, inValue := true }

/-- **One variable**: the one before it is saved. -/
theorem foldl_variable {p : Parse} (hp : p.escapeNext = false) (v : Variable) :
    (encodeVariable v).foldl parseByte p = Parse.read p.save v := by
  unfold encodeVariable
  rw [List.foldl_cons, List.foldl_append, List.foldl_cons]
  have hstart : p.parseByte (if v.user then newEnvironUservar else newEnvironVar) = { envVars := p.save } := by
    unfold Parse.parseByte
    rw [hp]
    cases v.user <;> rfl
  have hvalue : (({ envVars := p.save } : Parse).appendAll (encode v.name)).parseByte newEnvironValue =
      { envVars := p.save, currentName := encode v.name, inValue := true } := rfl
  rw [hstart, foldl_escaped (p := { envVars := p.save }) rfl, hvalue, foldl_escaped rfl]
  rfl

theorem encode_ne_nil {s : String} (h : s ≠ "") : encode s ≠ [] := by
  intro hnil
  have hdecoded := decode_encode s
  rw [hnil, decode_nil] at hdecoded
  exact h (Option.some.inj hdecoded).symm

theorem save_read (d : OrderedDict String String) (v : Variable) :
    (Parse.read d v).save = d.set v.name v.value := by
  unfold Parse.save Parse.read
  rw [if_neg (encode_ne_nil v.name_ne), decodeReplace_encode, decodeReplace_encode]

/-- The dictionary of the variables. -/
def dictOf (vars : List Variable) : OrderedDict String String :=
  vars.foldl (fun d v => d.set v.name v.value) .empty

/-- All variables, one after the other. -/
theorem foldl_variables {p : Parse} (hp : p.escapeNext = false) (vars : List Variable) :
    ((vars.flatMap encodeVariable).foldl parseByte p).save =
      vars.foldl (fun d v => d.set v.name v.value) p.save := by
  induction vars generalizing p with
  | nil => rfl
  | cons v vars ih =>
    rw [List.flatMap_cons, List.foldl_append, foldl_variable hp, ih rfl, save_read, List.foldl_cons]

theorem parse_eq (vars : List Variable) : parseNewEnvironData (vars.flatMap encodeVariable) = dictOf vars :=
  foldl_variables rfl vars

theorem get?_dictOf (vars : List Variable) (name : String) : (dictOf vars).get? name = lastValue vars name := by
  unfold dictOf lastValue
  induction vars using List.reverseRecOn with
  | nil => rfl
  | append_singleton vars v ih =>
    rw [List.foldl_append, List.foldl_cons, List.foldl_nil, OrderedDict.get?_set, List.reverse_append, ih,
      List.reverse_singleton, List.singleton_append, List.find?_cons]
    by_cases hname : v.name = name
    · rw [if_pos hname.symm, decide_eq_true hname]
      rfl
    · rw [if_neg (Ne.symm hname), decide_eq_false hname]

/-- **Parsing what was encoded** gives every name its last value, and nothing else. -/
theorem parse_encoded (vars : List Variable) (name : String) :
    (parseNewEnvironData (vars.flatMap encodeVariable)).get? name = lastValue vars name := by
  rw [parse_eq]
  exact get?_dictOf vars name

/-- What a client sends with `IS`, in whatever pieces, is stored over what there was. -/
theorem environReceived_encoded (d : OrderedDict String String) {data : List Bytes} {vars : List Variable}
    (h : data.flatten = newEnvironIs :: vars.flatMap encodeVariable) (name : String) :
    (telnetNewEnviron d data).get? name = (lastValue vars name).or (d.get? name) := by
  unfold telnetNewEnviron
  rw [h]
  simp only [true_or, if_true]
  rw [OrderedDict.get?_update, parse_eq, get?_dictOf]

end Cowrie.Telnet
