import ProposalVetting.CommandLine.Run
import ProposalVetting.Proofs.CommandLine.Difference
import ProposalVetting.Proofs.Input.Code

namespace ProposalVetting
open Failure

namespace CommandLine
open Arguments

variable {files : Files} {path x y : String} {put : String → List String} {arguments : List String}

theorem codeArgument_inline (h : x.toList.head? ≠ some '@') :
    codeArgument files x = Input.code x := by
  unfold codeArgument
  split
  · rename_i htext
    simp [htext] at h
  · rfl

theorem toList_path (path : String) : ("@" ++ path).toList = '@' :: path.toList := by
  simp

theorem codeArgument_path (h : files path = .ok x) :
    codeArgument files ("@" ++ path) = Input.code x := by
  unfold codeArgument
  rw [toList_path]
  simp only [String.ofList_toList, Input.codeFile, h]

theorem plain_path (path : String) : Plain ("@" ++ path) :=
  plain_of_head (toList_path path) (by decide)

namespace ScanCommand

variable {json : Bool}

/-- What a scan comes to, from what is read of the code. -/
def outcome (json : Bool) : Except InputError (List UInt8) → Outcome
  | .ok code =>
    { output :=
        if json then (Bytecode.scan code).document.writeIndented ++ "\n" else scanText code }
  | .error e => { failure := some (.input e) }

theorem run_eq_outcome {r : Except InputError (List UInt8)} (h : codeArgument files x = r) :
    Outcome.ofExcept (run ⟨x, json⟩ files) = outcome json r := by
  rw [run, h]
  cases r <;> rfl

theorem read_eq (texts : List String) :
    Command.read ("scan" :: texts) =
      Arguments.read options texts >>= fun args => Command.scan <$> ofArguments args := rfl

theorem code_of_ofArguments {args : Arguments} {c : ScanCommand} (h : ofArguments args = .ok c) :
    args.operand = some c.code := by
  obtain ⟨text, htext, h⟩ := bind_eq_ok_iff.1 h
  cases h
  unfold operand at htext
  split at htext
  · cases htext
    assumption
  · cases htext

theorem gives_of_read (h : Command.read ("scan" :: arguments) = .ok (.scan ⟨x, json⟩)) :
    Gives x .operand arguments := by
  rw [read_eq] at h
  obtain ⟨args, hargs, h⟩ := bind_eq_ok_iff.1 h
  obtain ⟨c, hc, h⟩ := map_eq_ok_iff.1 h
  cases h
  exact (traced_of_read hargs).found.operand _ (code_of_ofArguments hc)

/-- Two texts in the same place are refused alike or read as the same command but for the code. -/
theorem read_alike (h : ValueAt x .operand put) (hy : Plain y) :
    Alike (fun c d => ∃ json, c = .scan ⟨x, json⟩ ∧ d = .scan ⟨y, json⟩)
      (Command.read ("scan" :: put x)) (Command.read ("scan" :: put y)) := by
  have hflags : ∀ o ∈ options, o.kind = .flag := List.forall_mem_singleton.2 rfl
  rw [read_eq, read_eq]
  refine (read_alike_of_operand hflags h hy).bind fun s t h => ?_
  obtain ⟨hs, ht⟩ := h.operand_eq_some
  unfold ofArguments operand
  rw [hs, ht, h.has_eq]
  exact .ok ⟨_, rfl, rfl⟩

end ScanCommand

namespace ClassifyCommand

variable {c : ClassifyCommand}

/-- What is wrong with the first input that cannot be used. -/
inductive Fault where
  | address (e : InputError)
  | trusted (e : InputError)
  | code (e : InputError)
  | nonce (e : InputError)
deriving DecidableEq

def Fault.cause : Fault → InputError
  | address e => e
  | trusted e => e
  | code e => e
  | nonce e => e

/-- Code and nonce are read together when both are texts, and what is wrong with one of them is
wrapped. -/
def Fault.inline : Fault → Failure
  | address e => .input e
  | trusted e => .input e
  | code e => .facts ⟨e⟩
  | nonce e => .facts ⟨e⟩

def Fault.inFile (fault : Fault) : Failure := .input fault.cause

def line (a : Address) (category : Category) : String :=
  a.checksum ++ ": " ++ category.tag ++ " [" ++ category.severity.tag ++ "] " ++
    category.description ++ "\n"

/-- What classifying comes to when the code is that of the text. The inputs are looked at in the
order address, trusted addresses from the first one on, code, nonce. -/
inductive Ends (c : ClassifyCommand) (text : String) : Except Fault Outcome → Prop where
  | address {e : InputError} (haddress : Input.address c.address = .error e) :
      Ends c text (.error (.address e))
  | trusted {a : Address} {before behind : List String} {bad : String} {e : InputError}
      (haddress : Input.address c.address = .ok a) (htrusted : c.trusted = before ++ bad :: behind)
      (hbefore : ∀ t ∈ before, ∃ b, Input.address t = .ok b) (hbad : Input.address bad = .error e) :
      Ends c text (.error (.trusted e))
  | code {a : Address} {trusted : List Address} {e : InputError}
      (haddress : Input.address c.address = .ok a)
      (htrusted : List.Forall₂ (fun t b => Input.address t = .ok b) c.trusted trusted)
      (hcode : Input.code text = .error e) :
      Ends c text (.error (.code e))
  | nonce {a : Address} {trusted : List Address} {code : List UInt8} {e : InputError}
      (haddress : Input.address c.address = .ok a)
      (htrusted : List.Forall₂ (fun t b => Input.address t = .ok b) c.trusted trusted)
      (hcode : Input.code text = .ok code) (hnonce : Input.nonce c.nonce = .error e) :
      Ends c text (.error (.nonce e))
  | line {a : Address} {trusted : List Address} {code : List UInt8} {nonce : UInt64}
      (haddress : Input.address c.address = .ok a)
      (htrusted : List.Forall₂ (fun t b => Input.address t = .ok b) c.trusted trusted)
      (hcode : Input.code text = .ok code) (hnonce : Input.nonce c.nonce = .ok nonce) :
      Ends c text (.ok { output := line a (classify (.ofList trusted) a ⟨some code, nonce⟩) })

theorem exists_ends (c : ClassifyCommand) (text : String) : ∃ r, c.Ends text r := by
  cases haddress : Input.address c.address with
  | error e => exact ⟨_, .address haddress⟩
  | ok a =>
    cases htrusted : c.trusted.mapM Input.address with
    | error e =>
      obtain ⟨before, bad, behind, hlist, hbefore, hbad⟩ := mapM_eq_error_iff.1 htrusted
      exact ⟨_, .trusted haddress hlist hbefore hbad⟩
    | ok trusted =>
      have htrusted := mapM_eq_ok_iff.1 htrusted
      cases hcode : Input.code text with
      | error e => exact ⟨_, .code haddress htrusted hcode⟩
      | ok code =>
        cases hnonce : Input.nonce c.nonce with
        | error e => exact ⟨_, .nonce haddress htrusted hcode hnonce⟩
        | ok nonce => exact ⟨_, .line haddress htrusted hcode hnonce⟩

/-- What is known of the account, from the text of the code. -/
def factsOf (c : ClassifyCommand) (text : String) : Except Fault Facts := do
  let code ← (Input.code text).mapError Fault.code
  let nonce ← (Input.nonce c.nonce).mapError Fault.nonce
  return ⟨some code, nonce⟩

theorem facts_inline (h : x.toList.head? ≠ some '@') :
    facts { c with code := some x, noCode := false } files =
      (c.factsOf x).mapError Fault.inline := by
  unfold facts factsOf Facts.ofText
  rw [if_neg Bool.false_ne_true]
  simp only [Option.getD_some, if_neg h]
  cases hcode : Input.code x with
  | error e =>
    rw [Option.mapM_some, hcode]
    rfl
  | ok code =>
    rw [Option.mapM_some, hcode]
    cases Input.nonce c.nonce <;> rfl

theorem facts_inFile (h : files path = .ok x) :
    facts { c with code := some ("@" ++ path), noCode := false } files =
      (c.factsOf x).mapError Fault.inFile := by
  have hhead : ("@" ++ path).toList.head? = some '@' := by rw [toList_path]; rfl
  unfold facts factsOf
  rw [if_neg Bool.false_ne_true]
  simp only [Option.getD_some, if_pos hhead, codeArgument_path h]
  cases Input.code x with
  | error e => rfl
  | ok code => cases Input.nonce c.nonce <;> rfl

/-- The inputs are looked at in order, however code and nonce are read. -/
theorem Ends.run_eq {r : Except Fault Outcome} (h : c.Ends x r) {report : Fault → Failure}
    (haddress : ∀ e, report (.address e) = .input e)
    (htrusted : ∀ e, report (.trusted e) = .input e) {d : ClassifyCommand}
    (hd : d.address = c.address ∧ d.trusted = c.trusted)
    (hfacts : d.facts files = (c.factsOf x).mapError report) : d.run files = r.mapError report := by
  unfold run
  rw [hd.1, hd.2, hfacts]
  cases h with
  | address h =>
    rw [h]
    exact congrArg Except.error (haddress _).symm
  | trusted h hlist hbefore hbad =>
    rw [h, mapM_eq_error_iff.2 ⟨_, _, _, hlist, hbefore, hbad⟩]
    exact congrArg Except.error (htrusted _).symm
  | code h hlist hcode =>
    rw [h, mapM_eq_ok_iff.2 hlist, factsOf, hcode]
    rfl
  | nonce h hlist hcode hnonce =>
    rw [h, mapM_eq_ok_iff.2 hlist, factsOf, hcode, hnonce]
    rfl
  | line h hlist hcode hnonce =>
    rw [h, mapM_eq_ok_iff.2 hlist, factsOf, hcode, hnonce]
    rfl

theorem read_eq (texts : List String) :
    Command.read ("classify" :: texts) =
      Arguments.read options texts >>= fun args => Command.classify <$> ofArguments args := rfl

theorem ofArguments_eq (args : Arguments) :
    ofArguments args =
      if args.has "code" && args.has "no-code" then .error .conflict
      else operand args >>= fun address => .ok {
        address
        code := args.value? "code"
        noCode := args.has "no-code"
        nonce := (args.value? "nonce").getD "0"
        trusted := (args.values "trusted").flatMap fun list => list.splitOn "," } := by
  unfold ofArguments
  split <;> rfl

theorem code_of_ofArguments {args : Arguments} (h : ofArguments args = .ok c) :
    c.code = args.value? "code" := by
  rw [ofArguments_eq] at h
  split at h
  · cases h
  · obtain ⟨address, -, h⟩ := bind_eq_ok_iff.1 h
    cases h
    rfl

theorem gives_of_read (h : Command.read ("classify" :: arguments) = .ok (.classify c))
    (hcode : c.code = some x) :
    Gives x (.option "code") arguments := by
  rw [read_eq] at h
  obtain ⟨args, hargs, h⟩ := bind_eq_ok_iff.1 h
  obtain ⟨d, hd, h⟩ := map_eq_ok_iff.1 h
  cases h
  have hvalue : args.value? "code" = some x := (code_of_ofArguments hd).symm.trans hcode
  have hmem : ("code", x) ∈ args.options := by
    have hmem := List.mem_of_head? hvalue
    simpa [values] using hmem
  have hvalued : ∀ o ∈ options, o.name = "code" → o.kind ≠ .flag := by simp [options, anyText, flag]
  rcases (traced_of_read hargs).found.options _ hmem with hgives | ⟨o, ho, hname, hkind⟩
  · exact hgives
  · exact absurd hkind (hvalued o ho hname)

theorem read_alike (h : ValueAt x (.option "code") put) (hy : Plain y) :
    Alike (fun c d => ∃ base : ClassifyCommand,
        c = .classify { base with code := some x, noCode := false } ∧
        d = .classify { base with code := some y, noCode := false })
      (Command.read ("classify" :: put x)) (Command.read ("classify" :: put y)) := by
  have hsingle : Single options "code" (anyText "code") fun _ => .ok () :=
    ⟨rfl, rfl, rfl, by decide, by decide⟩
  rw [read_eq, read_eq]
  refine (read_alike_of_option hsingle rfl h hy).bind fun s t h => ?_
  obtain ⟨hs, ht⟩ := h.value?_eq_some
  have hoperand : operand s = operand t := by rw [operand, operand, h.operand_eq]
  have hnonce : s.value? "nonce" = t.value? "nonce" := by
    rw [value?, value?, h.values_eq (by decide)]
  rw [ofArguments_eq, ofArguments_eq, hs, ht, hoperand, hnonce, h.has_eq "no-code",
    h.values_eq (by decide), ← h.has_eq "code", h.has_option]
  cases hno : t.has "no-code" with
  | true => exact .error _
  | false =>
    cases operand t with
    | error e => exact .error e
    | ok address => exact .ok ⟨⟨address, none, false, _, _⟩, rfl, rfl⟩

end ClassifyCommand

/-- Both lists of arguments are refused alike, or scan the same code in the same way. -/
def ScanCommand.Indifferent (path x : String) (put : String → List String) : Prop :=
  (∃ r, Command.read ("scan" :: put x) = .error r ∧
    Command.read ("scan" :: put ("@" ++ path)) = .error r) ∨
    ∃ json, Command.read ("scan" :: put x) = .ok (.scan ⟨x, json⟩) ∧
      Command.read ("scan" :: put ("@" ++ path)) = .ok (.scan ⟨"@" ++ path, json⟩) ∧
      (x.toList.head? ≠ some '@' → ∀ files,
        CommandLine.run files ("scan" :: put x) = ScanCommand.outcome json (Input.code x)) ∧
      ∀ files, files path = .ok x →
        CommandLine.run files ("scan" :: put ("@" ++ path)) =
          ScanCommand.outcome json (Input.code x)

theorem ScanCommand.indifferent (h : ValueAt x .operand put) (path : String) :
    Indifferent path x put := by
  refine (read_alike h (plain_path path)).error_or_ok.imp_right ?_
  rintro ⟨_, _, hinline, hinFile, json, rfl, rfl⟩
  refine ⟨json, hinline, hinFile, fun hx files => ?_, fun files hfile => ?_⟩
  · rw [run_of_read hinline]
    exact run_eq_outcome (codeArgument_inline hx)
  · rw [run_of_read hinFile]
    exact run_eq_outcome (codeArgument_path hfile)

/-- Both lists of arguments are refused alike, or classify the same address by the same facts: there
is one line for both, or one fault, which each of them reports in its own way. -/
def ClassifyCommand.Indifferent (path x : String) (put : String → List String) : Prop :=
  (∃ r, Command.read ("classify" :: put x) = .error r ∧
    Command.read ("classify" :: put ("@" ++ path)) = .error r) ∨
    ∃ (c : ClassifyCommand) (r : Except Fault Outcome), c.Ends x r ∧
      Command.read ("classify" :: put x) = .ok (.classify { c with code := some x }) ∧
      Command.read ("classify" :: put ("@" ++ path)) =
        .ok (.classify { c with code := some ("@" ++ path) }) ∧
      (x.toList.head? ≠ some '@' → ∀ files,
        CommandLine.run files ("classify" :: put x) = .ofExcept (r.mapError Fault.inline)) ∧
      ∀ files, files path = .ok x →
        CommandLine.run files ("classify" :: put ("@" ++ path)) =
          .ofExcept (r.mapError Fault.inFile)

theorem ClassifyCommand.indifferent (h : ValueAt x (.option "code") put) (path : String) :
    Indifferent path x put := by
  refine (read_alike h (plain_path path)).error_or_ok.imp_right ?_
  rintro ⟨_, _, hinline, hinFile, base, rfl, rfl⟩
  obtain ⟨r, hr⟩ := exists_ends { base with noCode := false } x
  refine ⟨{ base with noCode := false }, r, hr, hinline, hinFile, fun hx files => ?_,
    fun files hfile => ?_⟩
  · rw [run_of_read hinline]
    apply congrArg Outcome.ofExcept
    exact hr.run_eq (fun _ => rfl) (fun _ => rfl) ⟨rfl, rfl⟩ (facts_inline hx)
  · rw [run_of_read hinFile]
    apply congrArg Outcome.ofExcept
    exact hr.run_eq (fun _ => rfl) (fun _ => rfl) ⟨rfl, rfl⟩ (facts_inFile hfile)

theorem code_of_path (h : x.toList.head? = some '@') :
    Input.code x = .error (.invalidCharacter '@' 0) := by
  obtain ⟨cs, htext⟩ := List.head?_eq_some_iff.1 h
  exact Input.code_of_foreign_head htext (by decide) (by decide)

/-- For code it is the same whether it is given inline or stands in a file. Wherever its text `x` is
taken as a value, it stands in a place where the path of the file can stand, and a scan has the same
outcome there; to classify an address ends in the same line, or for the same fault. What the file
holds is read as code whatever it begins with. -/
theorem code_inline_as_in_file (path x : String) :
    (∀ arguments json, Command.read ("scan" :: arguments) = .ok (.scan ⟨x, json⟩) →
      Gives x .operand arguments) ∧
    (∀ arguments c, Command.read ("classify" :: arguments) = .ok (.classify c) → c.code = some x →
      Gives x (.option "code") arguments) ∧
    (∀ put, ValueAt x .operand put → ScanCommand.Indifferent path x put) ∧
    (∀ put, ValueAt x (.option "code") put → ClassifyCommand.Indifferent path x put) ∧
    (x.toList.head? = some '@' → Input.code x = .error (.invalidCharacter '@' 0)) :=
  ⟨fun _ _ => ScanCommand.gives_of_read, fun _ _ => ClassifyCommand.gives_of_read,
    fun _ h => ScanCommand.indifferent h path, fun _ h => ClassifyCommand.indifferent h path,
    code_of_path⟩

example : (run (fun _ => .error .missing)
    ["classify", "--code", "0xzz", "--nonce=-1",
     "0x1111111111111111111111111111111111111111"]).failure =
      some (.facts ⟨.invalidCharacter 'z' 0⟩) := by decide +kernel

example : (run (fun _ => .ok "0xzz")
    ["classify", "--code", "@code", "--nonce=-1",
     "0x1111111111111111111111111111111111111111"]).failure =
      some (.input (.invalidCharacter 'z' 0)) := by decide +kernel

end CommandLine
end ProposalVetting
