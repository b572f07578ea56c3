import Mathlib.Data.List.Basic

/-!
# JSON texts

The grammar of a JSON value over the tokens of a text. A word is a JSON token only if it is one
of three; whatever else a writer puts between the commas makes the text no JSON.
-/
namespace JsonText

inductive Token
  | openArray
  | closeArray
  | openObject
  | closeObject
  | comma
  | colon
  | str (s : String)
  | num (text : String)
  | word (name : String)

/-- The token can stand in a JSON text. -/
def Token.IsJson : Token → Prop
  | .word name => name ∈ ["null", "true", "false"]
  | _ => True

/-- Lists of tokens with commas between them. -/
def separated : List (List Token) → List Token
  | [] => []
  | [ts] => ts
  | ts :: us :: rest => ts ++ .comma :: separated (us :: rest)

def array (items : List (List Token)) : List Token :=
  .openArray :: separated items ++ [.closeArray]

/-- A member of an object. -/
def member (key : String) (value : List Token) : List Token := .str key :: .colon :: value

def object (members : List (List Token)) : List Token :=
  .openObject :: separated members ++ [.closeObject]

/-- The texts of the JSON values. -/
inductive Value : List Token → Prop
  | word {name : String} : name ∈ ["null", "true", "false"] → Value [.word name]
  | num (text : String) : Value [.num text]
  | str (s : String) : Value [.str s]
  | array (items : List (List Token)) : (∀ ts ∈ items, Value ts) → Value (array items)
  | object (members : List (String × List Token)) : (∀ m ∈ members, Value m.2) →
      Value (object (members.map fun m => member m.1 m.2))

theorem mem_separated {t : Token} {items : List (List Token)} (h : t ∈ separated items) :
    t = .comma ∨ ∃ ts ∈ items, t ∈ ts := by
  induction items with
  | nil => cases h
  | cons ts rest ih =>
    cases rest with
    | nil => exact .inr ⟨ts, List.mem_cons_self, h⟩
    | cons us rest =>
      rcases List.mem_append.mp h with here | later
      · exact .inr ⟨ts, List.mem_cons_self, here⟩
      · rcases List.mem_cons.mp later with rfl | later
        · exact .inl rfl
        · exact (ih later).imp_right fun ⟨vs, among, within⟩ =>
            ⟨vs, List.mem_cons_of_mem _ among, within⟩

theorem mem_separated_of_mem {t : Token} {items : List (List Token)} {ts : List Token}
    (among : ts ∈ items) (within : t ∈ ts) : t ∈ separated items := by
  induction items with
  | nil => cases among
  | cons us rest ih =>
    cases rest with
    | nil =>
      obtain rfl := List.mem_singleton.mp among
      exact within
    | cons vs rest =>
      rcases List.mem_cons.mp among with rfl | later
      · exact List.mem_append_left _ within
      · exact List.mem_append_right _ (List.mem_cons_of_mem _ (ih later))

/-- The tokens of a list of values between brackets are its brackets, its commas and theirs. -/
theorem forall_mem_enclosed {P : Token → Prop} {opening closing : Token}
    {items : List (List Token)} (opens : P opening) (closes : P closing) (comma : P .comma) :
    (∀ t ∈ opening :: separated items ++ [closing], P t) ↔ ∀ ts ∈ items, ∀ t ∈ ts, P t := by
  constructor
  · intro all ts among t within
    exact all t (List.mem_append_left _ (List.mem_cons_of_mem _ (mem_separated_of_mem among within)))
  · intro all t within
    rcases List.mem_append.mp within with inside | last
    · rcases List.mem_cons.mp inside with rfl | inside
      · exact opens
      · rcases mem_separated inside with rfl | ⟨ts, among, within⟩
        · exact comma
        · exact all ts among t within
    · exact List.mem_singleton.mp last ▸ closes

/-- Every token of a JSON value is a JSON token. -/
theorem Value.isJson {ts : List Token} (h : Value ts) : ∀ t ∈ ts, t.IsJson := by
  induction h with
  | word known => simpa [Token.IsJson] using known
  | num text => simp [Token.IsJson]
  | str s => simp [Token.IsJson]
  | array items _ ih => exact (forall_mem_enclosed trivial trivial trivial).mpr ih
  | object members _ ih =>
    refine (forall_mem_enclosed trivial trivial trivial).mpr fun ts among => ?_
    obtain ⟨m, here, rfl⟩ := List.mem_map.mp among
    simpa [member, Token.IsJson] using ih m here

end JsonText
