import Fluffycoin.Utils.DelimitedString
import Mathlib

/-!
# `ArgParser`

Model of `src/utils/ArgParser.cpp`: command lines of `--name value`, `-c value` and switches. A
`std::string` is a list of its characters, and the arguments are the ones after the program's name.

* `parse` walks the arguments. Whether it is an error depends on what is wrong: an unknown long flag
  or a missing value is one, a word that is no flag or an unknown shortcut is only printed
  (`ArgParser.cpp:165-177`).
* `printHelp` is shown on an error. It splits the descriptions at newlines, so it may not return
  (`Fluffycoin.Utils.DelimitedString`); both are given a number of rounds for that.
* `Splits` is what a command line should be: options of a list with distinct names and shortcuts,
  each with its value.
* `readings` are the arguments at which a flag is expected, by what `parse` does with them. A
  command line splits exactly if all are recorded (`splits_iff_readings`).

`parsesExactly_iff`: so `parse` tells the command lines that split from those that do not exactly
where nothing is dropped, or something else is reported. `printHelp_returns_iff` says which help
is ever shown.

The getters that convert a value, and the originals that `maskArg` overwrites, are left out, as are
the messages about flags that are registered twice.
-/

namespace Fluffycoin

open Std (ExtTreeMap ExtTreeSet)

/-! ## Arguments -/

/-- `Args`. -/
structure Args where
  bError : Bool := false
  args : ExtTreeMap (List Char) (List (List Char)) := ∅

namespace Args

/-- `Args::setError`. -/
def setError (a : Args) : Args := { a with bError := true }

/-- `Args::hasArg`. -/
def hasArg (a : Args) (arg : List Char) : Bool := a.args.contains arg

/-- `Args::getArg`. -/
def getArg (a : Args) (arg : List Char) : List Char :=
  match a.args[arg]? with
  | none => []
  | some values => values.getLast?.getD []

/-- `Args::getArgs`. -/
def getArgs (a : Args) (arg : List Char) : List (List Char) := (a.args[arg]?).getD []

/-- `Args::addArg`. -/
def addArg (a : Args) (arg value : List Char) : Args :=
  { a with args := a.args.insert arg ((a.args[arg]?).getD [] ++ [value]) }

end Args

/-- `ArgParser`. -/
structure ArgParser where
  order : List (List Char) := []
  shortArgs : ExtTreeMap Char (List Char) := ∅
  descriptions : ExtTreeMap (List Char) (List Char) := ∅
  switches : ExtTreeSet (List Char) := ∅

namespace ArgParser

/-- `ArgParser::addParam`, with or without a shortcut. -/
def addParam (p : ArgParser) (shortcut : Option Char) (param description : List Char) :
    ArgParser :=
  { p with
    order := p.order ++ [param]
    shortArgs :=
      match shortcut with
      | none => p.shortArgs
      | some shortcut => p.shortArgs.insert shortcut param
    descriptions := p.descriptions.insert param description }

/-- `ArgParser::addSwitch`, with or without a shortcut. -/
def addSwitch (p : ArgParser) (shortcut : Option Char) (flag description : List Char) :
    ArgParser :=
  let p := p.addParam shortcut flag description
  { p with switches := p.switches.insert flag }

/-- `ArgParser::addCategory`. -/
def addCategory (p : ArgParser) (category : List Char) : ArgParser :=
  { p with order := p.order ++ [category] }

/-! ## Help -/

/-- `DESCRIPTION_INDENTION`. -/
def descriptionIndention : Nat := 40

/-- `printDesc` from column `pos`. -/
def printDesc (pos : Nat) (desc : List Char) : List Char :=
  List.replicate (descriptionIndention - pos) ' ' ++ desc ++ ['\n']

/-- The lines of a description, the first one from column `pos`. -/
def printLines : Nat → List (List Char) → List Char
  | _, [] => []
  | pos, line :: lines => printDesc pos line ++ printLines 0 lines

/-- The first shortcut of a parameter, unless it is the zero character. -/
def shortcutOf (p : ArgParser) (param : List Char) : Option Char :=
  ((p.shortArgs.toList.find? (·.2 == param)).map Prod.fst).filter (· != '\x00')

/-- What is printed for an entry of the order; `none` if the rounds are not enough. -/
def helpEntry (p : ArgParser) (rounds : Nat) (param : List Char) : Option (List Char) :=
  match p.descriptions[param]? with
  | none => some (['\n'] ++ param ++ ['\n'])
  | some description =>
    let shortcut :=
      match p.shortcutOf param with
      | none => []
      | some shortcut => ['-', shortcut, ' ']
    let flag := "    ".toList ++ shortcut ++ "--".toList ++ param ++
      (if p.switches.contains param then [] else " <Value>".toList)
    (DelimitedString.fromString id rounds description '\n').map fun lines =>
      flag ++ printLines flag.length lines

/-- `ArgParser::printHelp`; `none` if the rounds are not enough. -/
def printHelp (p : ArgParser) (rounds : Nat) : Option (List Char) := do
  let entries ← p.order.mapM (p.helpEntry rounds)
  return "Usage:\n\nGeneral\n    --help".toList ++ printDesc 10 "This help menu".toList ++
    entries.flatten

/-! ## Parsing -/

/-- What flag an argument is, or the message about it. -/
def flagOf (p : ArgParser) : List Char → Except String (List Char)
  | '-' :: '-' :: name => .ok name
  | ['-', shortcut] =>
    match p.shortArgs[shortcut]? with
    | none => .error s!"Argument error. Unknown flag '{shortcut}'.\n"
    | some name => .ok name
  | tk =>
    let text := String.ofList tk
    .error s!"Argument error. Expected flag but received '{text}'.\n"

/-- The loop of `ArgParser::parse`: the arguments from a position on, and what is printed. -/
def parseLoop (p : ArgParser) : List (List Char) → Args × String → Args × String
  | [], r => r
  | tk :: rest, (args, stderr) =>
    match p.flagOf tk with
    | .error message => p.parseLoop rest (args, stderr ++ message)
    | .ok name =>
      let text := String.ofList name
      if name = "help".toList then p.parseLoop rest (args.setError, stderr)
      else if !p.descriptions.contains name then
        p.parseLoop rest (args.setError, stderr ++ s!"Unknown flag '{text}'.\n")
      else if p.switches.contains name then p.parseLoop rest (args.addArg name ['1'], stderr)
      else
        match rest with
        | [] => (args.setError, stderr ++ s!"Expected value for flag '{text}'.\n")
        | value :: rest => p.parseLoop rest (args.addArg name value, stderr)

/-- `ArgParser::parse`; `argv` may be a null pointer. `none` if the rounds are not enough. -/
def parse (p : ArgParser) (rounds : Nat) (argv : Option (List (List Char))) :
    Option (Args × String) :=
  match argv with
  | none => some ({}, "")
  | some argv =>
    let (args, stderr) := p.parseLoop (argv.drop 1) ({}, "")
    if args.bError then
      (p.printHelp rounds).map fun help => (args, stderr ++ String.ofList help)
    else some (args, stderr)

/-! ## Which help is shown -/

theorem isSome_mapM_iff {α β : Type} {f : α → Option β} {l : List α} :
    (l.mapM f).isSome = true ↔ ∀ a ∈ l, (f a).isSome = true := by
  induction l with
  | nil => simp
  | cons a l ih =>
    rw [List.forall_mem_cons, ← ih, List.mapM_cons]
    cases f a with
    | none => simp
    | some b =>
      cases l.mapM f with
      | none => simp
      | some bs => simp

/-- No entry of the order has a description with a newline. -/
def OneLine (p : ArgParser) : Prop :=
  ∀ param ∈ p.order, ∀ description ∈ p.descriptions[param]?, '\n' ∉ description

theorem isSome_printHelp (p : ArgParser) (rounds : Nat) :
    (p.printHelp rounds).isSome = true ↔
      ∀ param ∈ p.order, (p.helpEntry rounds param).isSome = true := by
  rw [← isSome_mapM_iff]
  unfold printHelp
  cases p.order.mapM (p.helpEntry rounds) <;> simp

theorem isSome_helpEntry (p : ArgParser) (rounds : Nat) (param : List Char) :
    (p.helpEntry rounds param).isSome = true ↔
      ∀ description ∈ p.descriptions[param]?,
        (DelimitedString.fromString id rounds description '\n').isSome = true := by
  unfold helpEntry
  cases p.descriptions[param]? with
  | none =>
    simp only [Option.isSome_some, Option.mem_def, reduceCtorEq, false_implies, implies_true]
  | some description => simp only [Option.isSome_map, Option.mem_def, Option.some.injEq, forall_eq']

/-- **Which help is ever shown**: one whose descriptions are of one line each. -/
theorem printHelp_returns_iff (p : ArgParser) :
    (∃ rounds, (p.printHelp rounds).isSome = true) ↔ p.OneLine := by
  constructor
  · rintro ⟨rounds, hsome⟩ param hparam description hdescription hmem
    have hentry := (isSome_helpEntry p rounds param).mp
      ((isSome_printHelp p rounds).mp hsome param hparam) description hdescription
    rw [DelimitedString.fromString_of_mem id hmem] at hentry
    cases hentry
  · intro h
    refine ⟨2, (isSome_printHelp p 2).mpr fun param hparam => ?_⟩
    refine (isSome_helpEntry p 2 param).mpr fun description hdescription => ?_
    rw [DelimitedString.fromString_of_not_mem id (h param hparam description hdescription)]
    rfl

/-- **Splitting ends, and inverts joining,** only where there is nothing to split; and the help is
shown exactly if no description has two lines. -/
theorem splitting_iff (str : List Char) (delimiter : Char) (elements : List (List Char))
    (p : ArgParser) :
    (DelimitedString.Splits id str delimiter ↔ delimiter ∉ str) ∧
    ((∀ element ∈ elements, element ≠ [] ∧ delimiter ∉ element) →
      (DelimitedString.Inverts elements delimiter ↔ elements.length ≤ 1)) ∧
    ((∃ rounds, (p.printHelp rounds).isSome = true) ↔ p.OneLine) :=
  ⟨DelimitedString.splits_iff id str delimiter, DelimitedString.inverts_iff,
    printHelp_returns_iff p⟩

/-! ## What is done with each flag -/

/-- What an argument is to `parse` where it expects a flag. -/
inductive Kind where
  | unknown
  | wrong
  | switch (name : List Char)
  | param (name : List Char)
  deriving DecidableEq, Repr

def kindOf (p : ArgParser) (tk : List Char) : Kind :=
  match p.flagOf tk with
  | .error _ => .unknown
  | .ok name =>
    if name = "help".toList ∨ p.descriptions.contains name = false then .wrong
    else if p.switches.contains name then .switch name
    else .param name

/-- What `parse` does where it expects a flag: print a message, set the error, or record. -/
inductive Reading where
  | dropped
  | refused
  | recorded (name value : List Char)
  deriving DecidableEq, Repr

/-- The readings of a command line, one for each flag that is expected. -/
def readings (p : ArgParser) : List (List Char) → List Reading
  | [] => []
  | tk :: rest =>
    match p.kindOf tk with
    | .unknown => .dropped :: p.readings rest
    | .wrong => .refused :: p.readings rest
    | .switch name => .recorded name ['1'] :: p.readings rest
    | .param name =>
      match rest with
      | [] => [.refused]
      | value :: rest => .recorded name value :: p.readings rest

/-- What a reading does to the result. -/
def Reading.apply (args : Args) : Reading → Args
  | .dropped => args
  | .refused => args.setError
  | .recorded name value => args.addArg name value

/-- The flag of a name that is known. -/
theorem kindOf_of_known {p : ArgParser} {tk name : List Char} (hflag : p.flagOf tk = .ok name)
    (hhelp : name ≠ "help".toList) (hknown : p.descriptions.contains name = true) :
    p.kindOf tk = if p.switches.contains name then .switch name else .param name := by
  simp only [kindOf, hflag, hhelp, hknown, Bool.true_eq_false, or_self, if_false]

/-- The loop applies the readings. -/
theorem parseLoop_fst (p : ArgParser) (tks : List (List Char)) (r : Args × String) :
    (p.parseLoop tks r).1 = (p.readings tks).foldl Reading.apply r.1 := by
  fun_induction parseLoop p tks r with
  | case1 r => rfl
  | case2 tk rest args stderr message hflag ih =>
    have hkind : p.kindOf tk = .unknown := by simp only [kindOf, hflag]
    simp only [readings, hkind]
    exact ih
  | case3 tk rest args stderr hflag ih =>
    have hkind : p.kindOf tk = .wrong := by simp only [kindOf, hflag, true_or, if_true]
    simp only [readings, hkind]
    exact ih
  | case4 tk rest args stderr name hflag text hhelp hname ih =>
    rw [Bool.not_eq_true'] at hname
    have hkind : p.kindOf tk = .wrong := by simp only [kindOf, hflag, hname, or_true, if_true]
    simp only [readings, hkind]
    exact ih
  | case5 tk rest args stderr name hflag hhelp hname hswitch ih =>
    rw [Bool.not_eq_true', Bool.not_eq_false] at hname
    have hkind := kindOf_of_known hflag hhelp hname
    rw [if_pos hswitch] at hkind
    simp only [readings, hkind]
    exact ih
  | case6 tk args stderr name hflag text hhelp hname hswitch =>
    rw [Bool.not_eq_true', Bool.not_eq_false] at hname
    have hkind := kindOf_of_known hflag hhelp hname
    rw [if_neg hswitch] at hkind
    simp only [readings, hkind]
    rfl
  | case7 tk args stderr name hflag hhelp hname hswitch value rest ih =>
    rw [Bool.not_eq_true', Bool.not_eq_false] at hname
    have hkind := kindOf_of_known hflag hhelp hname
    rw [if_neg hswitch] at hkind
    simp only [readings, hkind]
    exact ih

/-! ### The result of readings -/

theorem bError_foldl (rs : List Reading) (args : Args) :
    (rs.foldl Reading.apply args).bError = true ↔ args.bError = true ∨ .refused ∈ rs := by
  induction rs generalizing args with
  | nil => simp
  | cons r rs ih =>
    rw [List.foldl_cons, ih, List.mem_cons]
    cases r with
    | dropped => simp [Reading.apply]
    | refused => simp [Reading.apply, Args.setError]
    | recorded name value => simp [Reading.apply, Args.addArg]

/-- The values given for a name, in order. -/
def valuesOf (name : List Char) (options : List (List Char × List Char)) : List (List Char) :=
  (options.filter (·.1 = name)).map Prod.snd

/-- The arguments hold the values given for each name, in order, and nothing else. -/
structure Records (args : Args) (options : List (List Char × List Char)) : Prop where
  getArgs : ∀ name, args.getArgs name = valuesOf name options
  hasArg : ∀ name, args.hasArg name = true ↔ valuesOf name options ≠ []

theorem valuesOf_append (name : List Char) (options : List (List Char × List Char))
    (option : List Char × List Char) :
    valuesOf name (options ++ [option]) =
      if option.1 = name then valuesOf name options ++ [option.2] else valuesOf name options := by
  unfold valuesOf
  by_cases h : option.1 = name
  · simp [h]
  · simp [h]

theorem records_empty : Records {} [] :=
  ⟨fun name => by simp [Args.getArgs, valuesOf], fun name => by simp [Args.hasArg, valuesOf]⟩

theorem Records.addArg {args : Args} {options : List (List Char × List Char)}
    (h : Records args options) (name value : List Char) :
    Records (args.addArg name value) (options ++ [(name, value)]) := by
  constructor
  · intro arg
    have hsame := h.getArgs arg
    unfold Args.getArgs Args.addArg at *
    rw [ExtTreeMap.getElem?_insert, valuesOf_append]
    simp only [Std.compare_eq_iff_eq]
    by_cases hname : name = arg
    · subst hname
      simp [hsame]
    · simp [hname, hsame]
  · intro arg
    have hsame := h.hasArg arg
    unfold Args.hasArg Args.addArg at *
    rw [ExtTreeMap.contains_insert, valuesOf_append]
    by_cases hname : name = arg
    · subst hname
      simp
    · simp [hname, hsame]

/-- Recorded readings are the options recorded. -/
theorem records_foldl {args : Args} {options : List (List Char × List Char)}
    (h : Records args options) (more : List (List Char × List Char)) :
    Records ((more.map fun option => Reading.recorded option.1 option.2).foldl Reading.apply args)
      (options ++ more) := by
  induction more generalizing args options with
  | nil => simpa using h
  | cons option more ih =>
    rw [List.map_cons, List.foldl_cons, List.append_cons]
    exact ih (h.addArg option.1 option.2)

/-! ## Registered options -/

/-- A param or a switch to register. -/
structure Opt where
  name : List Char
  shortcut : Option Char := none
  isSwitch : Bool := false
  description : List Char := []

/-- Options with distinct names and shortcuts, none of them called `help`. -/
structure Options where
  list : List Opt
  names : (list.map Opt.name).Nodup
  shortcuts : (list.filterMap Opt.shortcut).Nodup
  noHelp : "help".toList ∉ list.map Opt.name

/-- `addParam` or `addSwitch`. -/
def register (p : ArgParser) (opt : Opt) : ArgParser :=
  if opt.isSwitch then p.addSwitch opt.shortcut opt.name opt.description
  else p.addParam opt.shortcut opt.name opt.description

/-- The parser with the options registered. -/
def Options.parser (opts : Options) : ArgParser := opts.list.foldl register {}

theorem descriptions_register (p : ArgParser) (opt : Opt) :
    (p.register opt).descriptions = p.descriptions.insert opt.name opt.description := by
  unfold register
  split <;> rfl

theorem shortArgs_addParam (p : ArgParser) (shortcut : Option Char) (param description : List Char)
    (c : Char) :
    (p.addParam shortcut param description).shortArgs[c]? =
      if shortcut = some c then some param else p.shortArgs[c]? := by
  cases shortcut with
  | none => simp [addParam]
  | some shortcut => simp [addParam, ExtTreeMap.getElem?_insert]

theorem shortArgs_register (p : ArgParser) (opt : Opt) (c : Char) :
    (p.register opt).shortArgs[c]? =
      if opt.shortcut = some c then some opt.name else p.shortArgs[c]? := by
  rw [← shortArgs_addParam p opt.shortcut opt.name opt.description]
  unfold register
  split <;> rfl

theorem switches_register (p : ArgParser) (opt : Opt) (name : List Char) :
    (p.register opt).switches.contains name = true ↔
      (opt.isSwitch = true ∧ opt.name = name) ∨ p.switches.contains name = true := by
  unfold register
  cases opt.isSwitch with
  | false => simp [addParam]
  | true => simp [addSwitch, addParam, ExtTreeSet.contains_insert]

section Registered

variable {list : List Opt}

theorem descriptions_foldl (list : List Opt) (name : List Char) :
    (list.foldl register {}).descriptions.contains name = true ↔ ∃ opt ∈ list, opt.name = name := by
  induction list using List.reverseRecOn with
  | nil => simp
  | append_singleton list opt ih =>
    rw [List.foldl_append, List.foldl_cons, List.foldl_nil, descriptions_register,
      ExtTreeMap.contains_insert]
    simp [ih, or_comm]

theorem switches_foldl (list : List Opt) (name : List Char) :
    (list.foldl register {}).switches.contains name = true ↔
      ∃ opt ∈ list, opt.isSwitch = true ∧ opt.name = name := by
  induction list using List.reverseRecOn with
  | nil => simp
  | append_singleton list opt ih =>
    rw [List.foldl_append, List.foldl_cons, List.foldl_nil, switches_register, ih]
    simp [or_comm]

theorem shortArgs_foldl (h : (list.filterMap Opt.shortcut).Nodup) (c : Char) (name : List Char) :
    (list.foldl register {}).shortArgs[c]? = some name ↔
      ∃ opt ∈ list, opt.shortcut = some c ∧ opt.name = name := by
  induction list using List.reverseRecOn with
  | nil => simp
  | append_singleton list opt ih =>
    rw [List.filterMap_append, List.nodup_append] at h
    rw [List.foldl_append, List.foldl_cons, List.foldl_nil, shortArgs_register]
    by_cases hshort : opt.shortcut = some c
    · -- no option before has this shortcut
      have hbefore : ∀ before ∈ list, before.shortcut ≠ some c := by
        intro before hmem heq
        exact h.2.2 c (List.mem_filterMap.mpr ⟨before, hmem, heq⟩) c
          (List.mem_filterMap.mpr ⟨opt, List.mem_singleton_self opt, hshort⟩) rfl
      rw [if_pos hshort]
      constructor
      · intro hname
        exact ⟨opt, by simp, hshort, Option.some.inj hname⟩
      · rintro ⟨found, hmem, hfound, rfl⟩
        rcases List.mem_append.mp hmem with hlist | hopt
        · exact absurd hfound (hbefore found hlist)
        · rw [List.mem_singleton.mp hopt]
    · rw [if_neg hshort, ih h.1]
      simp [or_and_right, exists_or, hshort]

end Registered

/-! ## Command lines -/

/-- The argument is the flag of the option, in its long form or by its shortcut. The argument `--`
is the long form of the empty name, also if `-` is a shortcut. -/
def Opt.Writes (opt : Opt) (tk : List Char) : Prop :=
  tk = '-' :: '-' :: opt.name ∨ ∃ c, c ≠ '-' ∧ opt.shortcut = some c ∧ tk = ['-', c]

/-- A command line is a sequence of options: switches, and params with their values. -/
inductive Splits (opts : Options) : List (List Char) → List (List Char × List Char) → Prop where
  | nil : Splits opts [] []
  | switch {opt : Opt} {tk : List Char} {tks : List (List Char)}
      {options : List (List Char × List Char)} (hopt : opt ∈ opts.list)
      (hswitch : opt.isSwitch = true) (htk : opt.Writes tk) (hrest : Splits opts tks options) :
      Splits opts (tk :: tks) ((opt.name, ['1']) :: options)
  | param {opt : Opt} {tk value : List Char} {tks : List (List Char)}
      {options : List (List Char × List Char)} (hopt : opt ∈ opts.list)
      (hparam : opt.isSwitch = false) (htk : opt.Writes tk) (hrest : Splits opts tks options) :
      Splits opts (tk :: value :: tks) ((opt.name, value) :: options)

section CommandLine

variable {opts : Options} {tk name : List Char}

theorem flagOf_eq_ok_iff {p : ArgParser} :
    p.flagOf tk = .ok name ↔
      tk = '-' :: '-' :: name ∨ ∃ c, c ≠ '-' ∧ p.shortArgs[c]? = some name ∧ tk = ['-', c] := by
  unfold flagOf
  split
  · rename_i long
    simp [eq_comm]
  · rename_i c hlong
    have hc : c ≠ '-' := hlong
    cases hfound : p.shortArgs[c]? with
    | none => simp [hc, hfound]
    | some found => simp [hc, hfound]
  · rename_i hlong hshort
    constructor
    · intro hok
      cases hok
    · rintro (rfl | ⟨c, -, -, rfl⟩)
      · exact absurd rfl (hlong name)
      · exact absurd rfl (hshort c)

theorem Options.eq_of_name_eq (opts : Options) {opt opt' : Opt} (h : opt ∈ opts.list)
    (h' : opt' ∈ opts.list) (hname : opt.name = opt'.name) : opt = opt' :=
  List.inj_on_of_nodup_map opts.names h h' hname

/-- The flag of a registered option. -/
theorem flagOf_parser_iff {opt : Opt} (hopt : opt ∈ opts.list) :
    opts.parser.flagOf tk = .ok opt.name ↔ opt.Writes tk := by
  rw [flagOf_eq_ok_iff]
  refine or_congr_right (exists_congr fun c => and_congr_right fun _ => and_congr_left fun _ => ?_)
  rw [Options.parser, shortArgs_foldl opts.shortcuts]
  constructor
  · rintro ⟨found, hmem, hshort, hname⟩
    rwa [← opts.eq_of_name_eq hmem hopt hname]
  · intro hshort
    exact ⟨opt, hopt, hshort, rfl⟩

/-- What the flag of a registered option is. -/
theorem kindOf_of_writes {opt : Opt} (hopt : opt ∈ opts.list) (h : opt.Writes tk) :
    opts.parser.kindOf tk = if opt.isSwitch then .switch opt.name else .param opt.name := by
  have hflag := (flagOf_parser_iff hopt).mpr h
  have hhelp : opt.name ≠ "help".toList := by
    intro heq
    exact opts.noHelp (heq ▸ List.mem_map_of_mem hopt)
  have hknown : opts.parser.descriptions.contains opt.name = true :=
    (descriptions_foldl opts.list opt.name).mpr ⟨opt, hopt, rfl⟩
  have hswitch : opts.parser.switches.contains opt.name = opt.isSwitch := by
    rw [Bool.eq_iff_iff, Options.parser, switches_foldl]
    constructor
    · rintro ⟨found, hmem, hfound, hname⟩
      rwa [← opts.eq_of_name_eq hmem hopt hname]
    · intro hopt'
      exact ⟨opt, hopt, hopt', rfl⟩
  rw [kindOf_of_known hflag hhelp hknown, hswitch]

/-- A flag that is neither unknown nor wrong is one of a registered option. -/
theorem exists_writes {kind : Kind} (h : opts.parser.kindOf tk = kind) (hunknown : kind ≠ .unknown)
    (hwrong : kind ≠ .wrong) :
    ∃ opt ∈ opts.list, opt.Writes tk ∧
      kind = if opt.isSwitch then .switch opt.name else .param opt.name := by
  cases hflag : opts.parser.flagOf tk with
  | error message => exact absurd (h.symm.trans (by simp only [kindOf, hflag])) hunknown
  | ok name =>
    have hknown : opts.parser.descriptions.contains name = true := by
      by_contra hnot
      rw [Bool.not_eq_true] at hnot
      exact hwrong (h.symm.trans (by simp only [kindOf, hflag, hnot, or_true, if_true]))
    obtain ⟨opt, hopt, rfl⟩ := (descriptions_foldl opts.list name).mp hknown
    have htk := (flagOf_parser_iff hopt).mp hflag
    exact ⟨opt, hopt, htk, h.symm.trans (kindOf_of_writes hopt htk)⟩

theorem exists_switch (h : opts.parser.kindOf tk = .switch name) :
    ∃ opt ∈ opts.list, opt.isSwitch = true ∧ opt.Writes tk ∧ name = opt.name := by
  obtain ⟨opt, hopt, htk, hkind⟩ := exists_writes h (by simp) (by simp)
  cases hswitch : opt.isSwitch with
  | true => exact ⟨opt, hopt, hswitch, htk, by simpa [hswitch] using hkind⟩
  | false => simp [hswitch] at hkind

theorem exists_param (h : opts.parser.kindOf tk = .param name) :
    ∃ opt ∈ opts.list, opt.isSwitch = false ∧ opt.Writes tk ∧ name = opt.name := by
  obtain ⟨opt, hopt, htk, hkind⟩ := exists_writes h (by simp) (by simp)
  cases hswitch : opt.isSwitch with
  | false => exact ⟨opt, hopt, hswitch, htk, by simpa [hswitch] using hkind⟩
  | true => simp [hswitch] at hkind

/-- The readings of a command line that splits. -/
theorem Splits.readings_eq {tks : List (List Char)} {options : List (List Char × List Char)}
    (h : Splits opts tks options) :
    opts.parser.readings tks = options.map fun option => Reading.recorded option.1 option.2 := by
  induction h with
  | nil => rfl
  | switch hopt hswitch htk hrest ih =>
    have hkind := kindOf_of_writes hopt htk
    rw [if_pos hswitch] at hkind
    simp only [readings, hkind, ih, List.map_cons]
  | param hopt hparam htk hrest ih =>
    have hkind := kindOf_of_writes hopt htk
    rw [if_neg (by simp [hparam])] at hkind
    simp only [readings, hkind, ih, List.map_cons]

/-- The first of recorded readings is the first option. -/
theorem exists_of_recorded_cons {value : List Char} {rs : List Reading}
    {options : List (List Char × List Char)}
    (h : Reading.recorded name value :: rs =
      options.map fun option => Reading.recorded option.1 option.2) :
    ∃ rest, options = (name, value) :: rest ∧
      rs = rest.map fun option => Reading.recorded option.1 option.2 := by
  cases options with
  | nil => cases h
  | cons option rest =>
    obtain ⟨hhead, hrest⟩ := List.cons.inj h
    injection hhead with hname hvalue
    exact ⟨rest, by rw [hname, hvalue], hrest⟩

/-- **A command line splits exactly if every flag is recorded.** -/
theorem splits_iff_readings {tks : List (List Char)} {options : List (List Char × List Char)} :
    Splits opts tks options ↔
      opts.parser.readings tks =
        options.map fun option => Reading.recorded option.1 option.2 := by
  refine ⟨Splits.readings_eq, fun h => ?_⟩
  fun_induction readings opts.parser tks generalizing options with
  | case1 =>
    rw [List.map_eq_nil_iff.mp h.symm]
    exact .nil
  | case2 tk rest hkind ih => cases options <;> cases h
  | case3 tk rest hkind ih => cases options <;> cases h
  | case4 tk rest name hkind ih =>
    obtain ⟨options, rfl, hrest⟩ := exists_of_recorded_cons h
    obtain ⟨opt, hopt, hswitch, htk, rfl⟩ := exists_switch hkind
    exact .switch hopt hswitch htk (ih hrest)
  | case5 tk name hkind => cases options <;> cases h
  | case6 tk name hkind value rest ih =>
    obtain ⟨options, rfl, hrest⟩ := exists_of_recorded_cons h
    obtain ⟨opt, hopt, hparam, htk, rfl⟩ := exists_param hkind
    exact .param hopt hparam htk (ih hrest)

/-- All readings are recorded unless one is dropped or refused. -/
theorem exists_recorded_iff {rs : List Reading} :
    (∃ options : List (List Char × List Char),
        rs = options.map fun option => Reading.recorded option.1 option.2) ↔
      .dropped ∉ rs ∧ .refused ∉ rs := by
  constructor
  · rintro ⟨options, rfl⟩
    simp
  · rintro ⟨hdropped, hrefused⟩
    induction rs with
    | nil => exact ⟨[], rfl⟩
    | cons r rs ih =>
      rw [List.mem_cons, not_or] at hdropped hrefused
      obtain ⟨options, rfl⟩ := ih hdropped.2 hrefused.2
      cases r with
      | dropped => exact absurd rfl hdropped.1
      | refused => exact absurd rfl hrefused.1
      | recorded name value => exact ⟨(name, value) :: options, rfl⟩

end CommandLine

/-- `parse` returns, without an error, these arguments. -/
def ReturnsOk (p : ArgParser) (argv : Option (List (List Char))) (args : Args) : Prop :=
  args.bError = false ∧ ∃ rounds stderr, p.parse rounds argv = some (args, stderr)

/-- The arguments after the name of the program. -/
def tokens (argv : Option (List (List Char))) : List (List Char) := (argv.getD []).drop 1

/-- `parse` returns without an error exactly the command lines that split, and then with the values
given. -/
structure ParsesExactly (opts : Options) (argv : Option (List (List Char))) : Prop where
  accepts : (∃ args, opts.parser.ReturnsOk argv args) ↔ ∃ options, Splits opts (tokens argv) options
  records : ∀ args options, opts.parser.ReturnsOk argv args → Splits opts (tokens argv) options →
    Records args options

/-- What `parse` returns without an error: the help is not shown then. -/
theorem returnsOk_iff {p : ArgParser} {argv : Option (List (List Char))} {args : Args} :
    p.ReturnsOk argv args ↔
      .refused ∉ p.readings (tokens argv) ∧
        args = (p.readings (tokens argv)).foldl Reading.apply {} := by
  cases argv with
  | none =>
    simp only [ReturnsOk, parse, tokens, readings, Option.getD_none, List.drop_nil, List.foldl_nil,
      List.not_mem_nil, not_false_eq_true, true_and, Option.some.injEq, Prod.mk.injEq]
    constructor
    · rintro ⟨-, -, -, rfl, -⟩
      rfl
    · rintro rfl
      exact ⟨rfl, 0, "", rfl, rfl⟩
  | some argv =>
    have hfst := parseLoop_fst p (argv.drop 1) ({}, "")
    have herror := bError_foldl (p.readings (argv.drop 1)) {}
    rw [← hfst] at herror
    simp only [Bool.false_eq_true, false_or] at herror
    simp only [ReturnsOk, parse, tokens, Option.getD_some, ← hfst, ← herror]
    generalize p.parseLoop (argv.drop 1) ({}, "") = r
    obtain ⟨result, stderr⟩ := r
    cases hresult : result.bError with
    | false =>
      simp only [Bool.false_eq_true, if_false, not_false_eq_true, true_and]
      constructor
      · rintro ⟨hok, rounds, printed, heq⟩
        exact (congrArg Prod.fst (Option.some.inj heq)).symm
      · rintro rfl
        exact ⟨hresult, 0, stderr, rfl⟩
    | true =>
      simp only [if_true, not_true_eq_false, false_and, iff_false, not_and]
      rintro hok ⟨rounds, printed, heq⟩
      obtain ⟨help, -, heq⟩ := Option.map_eq_some_iff.mp heq
      obtain rfl : result = args := congrArg Prod.fst heq
      rw [hresult] at hok
      cases hok

/-- **Which command lines are parsed exactly**: those without a word that is dropped where a flag is
expected, and those with another that is refused. -/
theorem parsesExactly_iff (opts : Options) (argv : Option (List (List Char))) :
    ParsesExactly opts argv ↔
      (.dropped ∈ opts.parser.readings (tokens argv) →
        .refused ∈ opts.parser.readings (tokens argv)) := by
  have hreturns : (∃ args, opts.parser.ReturnsOk argv args) ↔
      .refused ∉ opts.parser.readings (tokens argv) := by
    simp only [returnsOk_iff, exists_and_left, exists_eq, and_true]
  have hsplits : (∃ options, Splits opts (tokens argv) options) ↔
      .dropped ∉ opts.parser.readings (tokens argv) ∧
        .refused ∉ opts.parser.readings (tokens argv) := by
    simp only [splits_iff_readings, exists_recorded_iff]
  constructor
  · intro h hdropped
    by_contra hrefused
    exact (hsplits.mp (h.accepts.mp (hreturns.mpr hrefused))).1 hdropped
  · intro h
    constructor
    · rw [hreturns, hsplits]
      constructor
      · intro hrefused
        exact ⟨fun hdropped => hrefused (h hdropped), hrefused⟩
      · exact And.right
    · intro args options hargs hoptions
      rw [returnsOk_iff, splits_iff_readings.mp hoptions] at hargs
      rw [hargs.2]
      exact records_foldl records_empty options

/-- One param of the genesis tool. -/
def greed : Options where
  list := [{ name := "greed".toList, shortcut := some 'g' }]
  names := by simp
  shortcuts := by simp
  noHelp := by decide

/-- A missing dash loses the option and its value, without an error. -/
theorem missing_dash_not_parsesExactly :
    greed.parser.ReturnsOk (some ["genesis".toList, "-greed".toList, "5".toList]) {} ∧
      ¬ ParsesExactly greed (some ["genesis".toList, "-greed".toList, "5".toList]) := by
  have hreadings : greed.parser.readings
      (tokens (some ["genesis".toList, "-greed".toList, "5".toList])) = [.dropped, .dropped] := rfl
  have hok : greed.parser.ReturnsOk (some ["genesis".toList, "-greed".toList, "5".toList]) {} := by
    rw [returnsOk_iff, hreadings]
    exact ⟨by decide, rfl⟩
  refine ⟨hok, fun h => ?_⟩
  obtain ⟨options, hsplits⟩ := h.accepts.mp ⟨{}, hok⟩
  rw [splits_iff_readings, hreadings] at hsplits
  cases options <;> cases hsplits

end ArgParser

end Fluffycoin
