import OpenNeon.Base.Text

/-!
# The first message of a SCRAM client

The proxy splits the message at its commas.  The part after the second comma is found
by the position of the empty part between the first two.
-/

namespace OpenNeon
namespace Proxy

open Base List

inductive ChannelBinding where
  | notSupportedClient
  | notSupportedServer
  | required (mode : List Char)
  deriving DecidableEq

namespace ChannelBinding

def parse (input : List Char) : Option ChannelBinding :=
  if input = ['n'] then some .notSupportedClient
  else if input = ['y'] then some .notSupportedServer
  else (input.dropPrefix? ['p', '=']).map .required

def text : ChannelBinding -> List Char
  | .notSupportedClient => ['n']
  | .notSupportedServer => ['y']
  | .required mode => 'p' :: '=' :: mode

theorem text_injective : Function.Injective text := by
  intro a b h
  cases a <;> cases b <;> simp_all [text]

theorem parse_eq_some_iff {input : List Char} {flag : ChannelBinding} :
    parse input = some flag <-> input = flag.text := by
  unfold parse
  split
  next hn =>
    rw [hn]
    cases flag <;> simp [text]
  next hn =>
    split
    next hy =>
      rw [hy]
      cases flag <;> simp [text]
    next hy =>
      rw [Option.map_eq_some_iff]
      cases flag <;> simp_all [text, dropPrefix?_eq_some_iff]

end ChannelBinding

def validateSaslExtensions : List (List Char) -> Option Unit
  | [] => some ()
  | (attr :: eq :: _) :: parts =>
    if attr.isAlpha = true ∧ eq = '=' then validateSaslExtensions parts else none
  | _ => none

@[ext] structure ClientFirstMessage where
  bare : List Char
  cbindFlag : ChannelBinding
  nonce : List Char
  deriving DecidableEq

namespace ClientFirstMessage

/-- The nonce in the parts after the second comma. -/
def parseBare : List (List Char) -> Option (List Char)
  | username :: nonce :: extensions => do
    let _ <- username.dropPrefix? ['n', '=']
    let nonce <- nonce.dropPrefix? ['r', '=']
    validateSaslExtensions extensions
    return nonce
  | _ => none

def parse (input : List Char) : Except Text.SplitAtPanic (Option ClientFirstMessage) :=
  match input.splitOn ',' with
  | flag :: authzid :: parts =>
    match ChannelBinding.parse flag with
    | none => .ok none
    | some cbindFlag =>
      if authzid ≠ [] then .ok none
      else do
        -- the empty part starts after the first comma, and the second one is skipped
        let split <- Text.splitAt input (flag.length + 1 + 1)
        return (parseBare parts).map (fun nonce => ⟨split.2, cbindFlag, nonce⟩)
  | _ => .ok none

/-!
## The grammar
-/

/-- An extension is a letter, an equals sign and a value. -/
def IsExtension (part : List Char) : Prop :=
  exists attr value, attr.isAlpha = true ∧ part = attr :: '=' :: value

structure Spells (input : List Char) (m : ClientFirstMessage) : Prop where
  flag : ',' ∉ m.cbindFlag.text
  input_eq : input = m.cbindFlag.text ++ ',' :: ',' :: m.bare
  bare : exists username extensions, ',' ∉ username ∧ ',' ∉ m.nonce ∧
    (forall part, part ∈ extensions -> ',' ∉ part ∧ IsExtension part) ∧
    m.bare = [','].intercalate
      (('n' :: '=' :: username) :: ('r' :: '=' :: m.nonce) :: extensions)

variable {input : List Char} {parts : List (List Char)} {flag : ChannelBinding}
  {m : ClientFirstMessage}

theorem validateSaslExtensions_iff :
    validateSaslExtensions parts = some () <-> forall part, part ∈ parts -> IsExtension part := by
  induction parts with
  | nil => simp [validateSaslExtensions]
  | cons part parts ih =>
    rw [forall_mem_cons, ← ih]
    match part with
    | [] => simp [validateSaslExtensions, IsExtension]
    | [c] => simp [validateSaslExtensions, IsExtension]
    | attr :: eq :: value =>
      rw [validateSaslExtensions, Option.ite_none_right_eq_some]
      simp [IsExtension, and_assoc]

theorem parseBare_eq_some_iff {nonce : List Char} :
    parseBare parts = some nonce <->
      exists username extensions, (forall part, part ∈ extensions -> IsExtension part) ∧
        parts = ('n' :: '=' :: username) :: ('r' :: '=' :: nonce) :: extensions := by
  match parts with
  | [] => simp [parseBare]
  | [_] => simp [parseBare]
  | username :: nonce' :: extensions =>
    have hvalid : (exists u, validateSaslExtensions extensions = some u) <->
        forall part, part ∈ extensions -> IsExtension part :=
      ⟨fun ⟨_, hu⟩ => validateSaslExtensions_iff.mp hu,
        fun h => ⟨(), validateSaslExtensions_iff.mpr h⟩⟩
    simp [parseBare, Option.bind_eq_some_iff, dropPrefix?_eq_some_iff, hvalid]
    tauto

theorem intercalate_cons_cons (a b : List Char) (parts : List (List Char)) :
    [','].intercalate (a :: b :: parts) = a ++ ',' :: [','].intercalate (b :: parts) := by
  simp [intercalate]

/-- A flag and one comma, where the text ends. -/
def Cut (input : List Char) : Prop :=
  exists flag : ChannelBinding, ',' ∉ flag.text ∧ input = flag.text ++ [',']

theorem parse_of_splitOn (hsplit : input.splitOn ',' = flag.text :: [] :: parts)
    (hcut : ¬ Cut input) :
    parse input = .ok ((parseBare parts).map (fun nonce =>
      ⟨[','].intercalate parts, flag, nonce⟩)) := by
  obtain ⟨-, hcommas, hinput⟩ := Text.splitOn_eq_iff.mp hsplit
  rw [intercalate_cons_cons] at hinput
  cases parts with
  | nil => exact absurd ⟨flag, hcommas _ (.head _), hinput⟩ hcut
  | cons part parts =>
    have hsplitAt : Text.splitAt input (flag.text.length + 1 + 1) =
        .ok (flag.text ++ [',', ','], [','].intercalate (part :: parts)) := by
      have hfront := Text.splitAt_append (flag.text ++ [',', ','])
        ([','].intercalate (part :: parts))
      rw [append_assoc, length_append] at hfront
      rw [hinput, intercalate_cons_cons]
      exact hfront
    unfold parse
    rw [hsplit]
    dsimp only
    rw [ChannelBinding.parse_eq_some_iff.mpr rfl]
    dsimp only
    rw [if_neg (not_not.mpr rfl), hsplitAt]
    rfl

theorem spells_iff :
    Spells input m <-> exists parts, input.splitOn ',' = m.cbindFlag.text :: [] :: parts ∧
      parseBare parts = some m.nonce ∧ m.bare = [','].intercalate parts := by
  simp only [Text.splitOn_eq_iff, parseBare_eq_some_iff]
  constructor
  · rintro ⟨hflag, hinput, username, extensions, husername, hnonce, hextensions, hbare⟩
    refine ⟨_, ⟨cons_ne_nil _ _, ?_, ?_⟩, ⟨username, extensions,
      fun part hpart => (hextensions part hpart).2, rfl⟩, hbare⟩
    · simp [hflag, husername, hnonce]
      exact fun part hpart => (hextensions part hpart).1
    · rw [hinput, intercalate_cons_cons, intercalate_cons_cons, hbare]
      rfl
  · rintro ⟨_, ⟨-, hparts, hinput⟩, ⟨username, extensions, hextensions, rfl⟩, hbare⟩
    rw [forall_mem_cons, forall_mem_cons, forall_mem_cons, forall_mem_cons] at hparts
    rcases hparts with ⟨hflag, -, husername, hnonce, hcommas⟩
    simp only [mem_cons, not_or] at husername hnonce
    refine ⟨hflag, ?_, username, extensions, husername.2.2, hnonce.2.2,
      fun part hpart => ⟨hcommas part hpart, hextensions part hpart⟩, hbare⟩
    rw [hinput, intercalate_cons_cons, intercalate_cons_cons, hbare]
    rfl

theorem parse_of_not_splitOn
    (h : forall (flag : ChannelBinding) parts, input.splitOn ',' ≠ flag.text :: [] :: parts) :
    parse input = .ok none := by
  unfold parse
  split
  next flag authzid parts hsplit =>
    split
    · rfl
    next cbindFlag hflag =>
      rw [if_pos]
      rintro rfl
      exact h cbindFlag parts (by rw [hsplit, ChannelBinding.parse_eq_some_iff.mp hflag])
  · rfl

theorem splitOn_of_cut (hflag : ',' ∉ flag.text) :
    (flag.text ++ [',']).splitOn ',' = [flag.text, []] := by
  rw [Text.splitOn_eq_iff]
  simp [hflag, intercalate]

theorem parse_of_cut (hcut : Cut input) : parse input = .error .outOfRange := by
  rcases hcut with ⟨flag, hflag, rfl⟩
  have hbeyond : Text.splitAt (flag.text ++ [',']) (flag.text.length + 1 + 1) =
      .error .outOfRange := if_pos (by simp)
  unfold parse
  rw [splitOn_of_cut hflag]
  dsimp only
  rw [ChannelBinding.parse_eq_some_iff.mpr rfl]
  dsimp only
  rw [if_neg (not_not.mpr rfl), hbeyond]
  rfl

theorem not_spells_of_cut (hcut : Cut input) (m : ClientFirstMessage) : ¬ Spells input m := by
  rcases hcut with ⟨flag, hflag, rfl⟩
  rw [spells_iff, splitOn_of_cut hflag]
  rintro ⟨parts, hparts, hbare, -⟩
  rw [← (cons.inj (cons.inj hparts).2).2] at hbare
  cases hbare

/-- The parser returns exactly the messages that a text spells, and refuses all other texts. -/
def ParsesGrammar (input : List Char) : Prop :=
  (forall m, parse input = .ok (some m) <-> Spells input m) ∧
    ((forall m, ¬ Spells input m) -> parse input = .ok none)

theorem parsesGrammar_of_not_cut (hcut : ¬ Cut input) : ParsesGrammar input := by
  simp only [ParsesGrammar, spells_iff]
  by_cases hsplit : exists (flag : ChannelBinding) (parts : List (List Char)),
    input.splitOn ',' = flag.text :: [] :: parts
  · rcases hsplit with ⟨flag, parts, hsplit⟩
    rw [parse_of_splitOn hsplit hcut, hsplit]
    cases hbare : parseBare parts with
    | none => simp [hbare]
    | some nonce =>
      constructor
      · intro m
        simp [ClientFirstMessage.ext_iff, ChannelBinding.text_injective.eq_iff, hbare, eq_comm]
        tauto
      · intro hnone
        exact absurd ⟨parts, rfl, hbare, rfl⟩ (hnone ⟨[','].intercalate parts, flag, nonce⟩)
  · have hnone : forall (flag : ChannelBinding) parts,
        input.splitOn ',' ≠ flag.text :: [] :: parts :=
      fun flag parts h => hsplit ⟨flag, parts, h⟩
    rw [parse_of_not_splitOn hnone]
    simp [hnone]

/-- The parser keeps to the grammar exactly at the texts that are not cut. -/
theorem parse_iff_spells (input : List Char) : ParsesGrammar input <-> ¬ Cut input := by
  constructor
  · intro h hcut
    have hnone := h.2 (not_spells_of_cut hcut)
    rw [parse_of_cut hcut] at hnone
    cases hnone
  · exact parsesGrammar_of_not_cut

theorem parse_iff_spells_extended :
    Spells "p=tls,,n=user,r=abc,m=1".toList
      ⟨"n=user,r=abc,m=1".toList, .required "tls".toList, "abc".toList⟩ := by
  refine (((parse_iff_spells _).mpr ?_).1 _).mp (by decide)
  rintro ⟨flag, -, h⟩
  have hlast := congrArg getLast? h
  rw [getLast?_concat] at hlast
  exact absurd hlast (by decide)

/-- A flag and a comma are enough to make the parser panic. -/
theorem parse_panics_after_comma :
    parse "n,".toList = .error .outOfRange ∧ forall m, ¬ Spells "n,".toList m :=
  ⟨by decide, not_spells_of_cut ⟨.notSupportedClient, by decide, rfl⟩⟩

end ClientFirstMessage
end Proxy
end OpenNeon
