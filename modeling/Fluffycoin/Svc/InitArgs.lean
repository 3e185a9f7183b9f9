import Fluffycoin.Utils.ArgParser

/-!
# The arguments of a service

Model of `Service::initArgs` (`src/svc/service/Service.cpp:219-244`) with
`LogArgs::initCmdLineParams` (`src/svc/service/LogArgs.cpp:9-19`). Every service registers the
options for the log before its own ones, which are a parameter here. What the log is set to is left
out.

The option `log-file-size` has a description of two lines, and `parse` prints the help when there is
an error, which then does not return (`ArgParser.printHelp_returns_iff`).

`initArgs_returns_iff`: so no service ever gets to the branch that shuts it down on a wrong command
line. `initArgs` returns exactly if nothing in it is refused, with `true`; on `--help`, an unknown
long flag or a missing value it hangs.
-/

namespace Fluffycoin

open ArgParser (Opt)

/-- `P2pServiceParams::initCmdLineParams`. -/
def P2p.P2pServiceParams.initCmdLineParams : List Opt :=
  [{ name := "wallet".toList, shortcut := some 'w',
     description := "Wallet containing stake key".toList },
   { name := "wallet-password".toList, shortcut := some 'p',
     description :=
      "Wallet password\nDefault: Use FLUFFYCOIN_WALLET_PASSWORD env var".toList },
   { name := "stake-address".toList, shortcut := some 'a',
     description :=
      "Address from wallet matching stake key\nDefault: Newest key in wallet".toList }]

/-- `CuratorServiceParams::initCmdLineParams`. -/
def CuratorServiceParams.initCmdLineParams (fsStorageDir : List Char) : List Opt :=
  [{ name := "block-dir".toList, shortcut := some 'b',
     description :=
      "Location to read/write blocks from (Default: ".toList ++ fsStorageDir ++ [')'] },
   { name := "reload-from".toList, shortcut := some 'r',
     description := "Reconciliation block to reload from (0=Reload all)".toList }]

end Fluffycoin

namespace Fluffycoin.Svc

open ArgParser (Opt Reading register)

/-- `LogArgs::initCmdLineParams`. -/
def LogArgs.initCmdLineParams (parser : ArgParser) : ArgParser :=
  let parser := parser.addCategory "Logging".toList
  let parser := parser.addSwitch none "log-console".toList "Log to console".toList
  let parser := parser.addParam none "log-file".toList "Log to a specific file".toList
  let parser := parser.addParam none "log-file-size".toList
    "Maximum size (in KB) for log file\n0=Don't log to file".toList
  let parser := parser.addSwitch none "log-debug".toList "Log debug information".toList
  let parser := parser.addSwitch (some 'v') "log-verbose".toList "Log verbose information".toList
  parser.addSwitch none "log-localtime".toList "Log using local time (default: UTC)".toList

/-- The parser of a service with these options of its own. -/
def argParser (opts : List Opt) : ArgParser :=
  opts.foldl register (LogArgs.initCmdLineParams {})

/-- `Service::initArgs`: what it returns, and the arguments, which are not parsed if there are none;
`none` if the rounds are not enough. -/
def initArgs (opts : List Opt) (rounds : Nat) :
    Option (List (List Char)) → Option (Bool × Option Args)
  -- Have anything to do?
  | none => some (true, none)
  | some [] => some (true, none)
  | some (program :: argv) =>
    ((argParser opts).parse rounds (program :: argv)).map fun r => (!r.1.bError, some r.1)

/-- An option stays registered when others are. -/
theorem registered_foldl {name description : List Char} {opts : List Opt}
    (hopts : ∀ opt ∈ opts, opt.name ≠ name) {p : ArgParser} (horder : name ∈ p.order)
    (hdescription : p.descriptions[name]? = some description) :
    name ∈ (opts.foldl register p).order ∧
      (opts.foldl register p).descriptions[name]? = some description := by
  induction opts generalizing p with
  | nil => exact ⟨horder, hdescription⟩
  | cons opt opts ih =>
    obtain ⟨hopt, hopts⟩ := List.forall_mem_cons.mp hopts
    refine ih hopts ?_ ?_
    · unfold register
      split <;> exact List.mem_append_left _ horder
    · rw [ArgParser.descriptions_register, Std.ExtTreeMap.getElem?_insert]
      simpa [hopt] using hdescription

/-- The help of a service is never shown to its end. -/
theorem printHelp_argParser {opts : List Opt}
    (hopts : ∀ opt ∈ opts, opt.name ≠ "log-file-size".toList) (rounds : Nat) :
    (argParser opts).printHelp rounds = none := by
  have hregistered : "log-file-size".toList ∈ (LogArgs.initCmdLineParams {}).order ∧
      (LogArgs.initCmdLineParams {}).descriptions["log-file-size".toList]? =
        some "Maximum size (in KB) for log file\n0=Don't log to file".toList := by decide
  obtain ⟨horder, hdescription⟩ := registered_foldl hopts hregistered.1 hregistered.2
  rw [← Option.not_isSome_iff_eq_none]
  intro hsome
  have honeLine := (ArgParser.printHelp_returns_iff _).mp ⟨rounds, hsome⟩
  exact honeLine _ horder _ hdescription (by decide)

/-- What `parse` returns, it returns without an error. -/
theorem parse_argParser {opts : List Opt}
    (hopts : ∀ opt ∈ opts, opt.name ≠ "log-file-size".toList) {rounds : Nat}
    {argv : List (List Char)} {r : Args × String}
    (h : (argParser opts).parse rounds argv = some r) :
    (argParser opts).ReturnsOk argv r.1 := by
  refine ⟨?_, rounds, r.2, h⟩
  simp only [ArgParser.parse, printHelp_argParser hopts, Option.map_none] at h
  split at h
  · cases h
  · rename_i hok
    rw [← Option.some.inj h]
    exact Bool.eq_false_iff.mpr hok

/-- **Which command lines a service takes**, whatever its own options. On all others it hangs, and
on none does it report an error. -/
theorem initArgs_returns_iff (opts : List Opt)
    (hopts : ∀ opt ∈ opts, opt.name ≠ "log-file-size".toList)
    (argv : Option (List (List Char))) :
    ((∃ rounds, (initArgs opts rounds argv).isSome = true) ↔
        .refused ∉ (argParser opts).readings (ArgParser.tokens argv)) ∧
      ∀ rounds r, initArgs opts rounds argv = some r → r.1 = true := by
  rcases argv with _ | _ | ⟨program, argv⟩
  · refine ⟨iff_of_true ⟨0, rfl⟩ List.not_mem_nil, fun rounds r h => ?_⟩
    rw [← Option.some.inj h]
  · refine ⟨iff_of_true ⟨0, rfl⟩ List.not_mem_nil, fun rounds r h => ?_⟩
    rw [← Option.some.inj h]
  · constructor
    · constructor
      · rintro ⟨rounds, hsome⟩
        rw [initArgs, Option.isSome_map] at hsome
        obtain ⟨r, hr⟩ := Option.isSome_iff_exists.mp hsome
        exact (ArgParser.returnsOk_iff.mp (parse_argParser hopts hr)).1
      · intro hrefused
        obtain ⟨-, rounds, stderr, hparse⟩ := ArgParser.returnsOk_iff.mpr ⟨hrefused, rfl⟩
        exact ⟨rounds, by rw [initArgs, hparse]; rfl⟩
    · intro rounds r h
      obtain ⟨result, hparse, rfl⟩ := Option.map_eq_some_iff.mp h
      rw [(parse_argParser hopts hparse).1]
      rfl

/-- The p2p service does not come back from `--help`; the curator takes a directory. -/
theorem initArgs_returns_iff_services :
    (¬ ∃ rounds, (initArgs P2p.P2pServiceParams.initCmdLineParams rounds
        (some ["p2p".toList, "--help".toList])).isSome = true) ∧
      ∃ rounds, (initArgs (CuratorServiceParams.initCmdLineParams "blocks".toList) rounds
        (some ["curator".toList, "-b".toList, "dir".toList])).isSome = true :=
  ⟨(initArgs_returns_iff _ (by decide) _).1.not.mpr (by decide),
    (initArgs_returns_iff _ (by decide) _).1.mpr (by decide)⟩

end Fluffycoin.Svc
