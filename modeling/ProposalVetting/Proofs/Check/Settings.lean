import ProposalVetting.Check.Run

namespace ProposalVetting

namespace Settings

variable {s : Settings} {e : ConfigError}

theorem exists_reason (h : s.validate = .error e) : ∃ reason, e = .invalid reason := by
  unfold validate at h
  split at h
  · cases h
    exact ⟨_, rfl⟩
  · split at h
    · cases h
      exact ⟨_, rfl⟩
    · cases h

end Settings

namespace Checker

variable {settings : Settings} {source : Source}

end Checker

end ProposalVetting
