import Corio.Epoll.Verdict

/-! # `handleRead` comes to an end

A turn that calls `handleRead` again has finished a request, and behind the first turn that
takes a byte of what was read or can still be read. The fuel of `handleRead` is therefore
enough, and what it returns is what the source computes.
-/

namespace Corio.Epoll

variable {fs : FileSystem} {d d' : HttpData} {reads : List ReadResult}

theorem readn_unread (reads : List ReadResult) (inBuffer : Bytes) (readSum : Nat) :
    (readn reads inBuffer readSum).inBuffer.length + unread (readn reads inBuffer readSum).reads ≤
      inBuffer.length + unread reads := by
  induction reads generalizing inBuffer readSum with
  | nil => exact Nat.le_refl _
  | cons result reads ih =>
      have later : unread (result :: reads) ≥ unread reads := by
        simp only [unread, List.map_cons, List.sum_cons]
        exact Nat.le_add_left _ _
      cases result with
      | again | failed => exact Nat.add_le_add_left later _
      | interrupted => exact (ih inBuffer readSum).trans (Nat.add_le_add_left later _)
      | data chunk =>
          unfold readn
          split
          · exact Nat.add_le_add_left later _
          · refine (ih _ _).trans (le_of_eq ?_)
            simp only [List.length_append, unread, List.map_cons, List.sum_cons]
            omega

/-! ## No parser runs out of fuel -/

theorem between_fault {str : Bytes} {first last : Int} {fault : Fault}
    (failed : between str first last = .error fault) : fault ≠ .outOfFuel := by
  unfold between at failed
  split at failed
  · cases failed
  · obtain rfl := Except.error.inj failed
    nofun

theorem scanChar_fault {str : Bytes} {i : Nat} {c : UInt8} {s : Scan} {fault : Fault}
    (failed : scanChar str i c s = .error fault) : fault ≠ .outOfFuel := by
  unfold scanChar at failed
  cases state : s.hState with
  | cr =>
      simp only [state] at failed
      split at failed
      · rcases bind_error.mp failed with key | ⟨key, -, failed⟩
        · exact between_fault key
        · rcases bind_error.mp failed with value | ⟨value, -, failed⟩
          · exact between_fault value
          · cases failed
      · cases failed
  | spacesAfterColon | endLF =>
      simp only [state] at failed
      cases failed
  | start | colon | lf | endCR =>
      simp only [state] at failed
      split at failed <;> cases failed
  | key | value =>
      simp only [state] at failed
      split at failed <;> split at failed <;> cases failed

theorem scan_fault {str rest : Bytes} {i : Nat} {s : Scan} {fault : Fault}
    (failed : scan str i rest s = .error fault) : fault ≠ .outOfFuel := by
  induction rest generalizing i s with
  | nil => cases failed
  | cons c rest ih =>
      unfold scan at failed
      split at failed
      · rcases bind_error.mp failed with turned | ⟨⟨goOn, s'⟩, -, later⟩
        · exact scanChar_fault turned
        · cases goOn with
          | true => exact ih later
          | false => cases later
      · cases failed

theorem parseHeaders_fault {fault : Fault} (failed : parseHeaders d = .error fault) :
    fault ≠ .outOfFuel := by
  rcases bind_error.mp failed with scanned | ⟨⟨finished, i, s⟩, -, failed⟩
  · exact scan_fault scanned
  · dsimp only at failed
    split_ifs at failed
    obtain rfl := Except.error.inj failed
    nofun

theorem judgeBody_fault {fault : Fault} (failed : judgeBody d = .error fault) :
    fault ≠ .outOfFuel := by
  unfold judgeBody at failed
  split at failed
  · cases failed
  · split at failed
    · obtain rfl := Except.error.inj failed
      nofun
    · split at failed <;> cases failed

theorem judgeHeaders_fault {fault : Fault} (failed : judgeHeaders d = .error fault) :
    fault ≠ .outOfFuel := by
  rcases bind_error.mp failed with parsed | ⟨⟨flag, mid⟩, -, failed⟩
  · exact parseHeaders_fault parsed
  · cases flag with
    | again | error => cases failed
    | success =>
        dsimp only at failed
        split at failed
        · exact judgeBody_fault failed
        · cases failed

theorem judgeState_fault {fault : Fault} (failed : judgeState d = .error fault) :
    fault ≠ .outOfFuel := by
  unfold judgeState at failed
  split at failed
  · unfold judgeURI at failed
    generalize parseURI d = parsed at failed
    obtain ⟨flag, mid⟩ := parsed
    cases flag with
    | again | error => cases failed
    | success => exact judgeHeaders_fault failed
  · exact judgeHeaders_fault failed
  · exact judgeBody_fault failed
  · cases failed
  · cases failed

theorem judge_fault {fault : Fault} (failed : judge d reads = .error fault) :
    fault ≠ .outOfFuel := by
  simp only [judge] at failed
  split_ifs at failed
  · exact judgeState_fault failed
  · exact judgeState_fault failed

/-! ## What a finished request takes from the buffer -/

theorem scan_le {str rest : Bytes} {i j : Nat} {s s' : Scan} {finished : Bool}
    (scanned : scan str i rest s = .ok (finished, j, s')) : i ≤ j := by
  induction rest generalizing i s with
  | nil =>
      obtain ⟨-, rfl, -⟩ := Prod.mk.inj (Except.ok.inj scanned)
      exact Nat.le_refl _
  | cons c rest ih =>
      unfold scan at scanned
      split at scanned
      · obtain ⟨⟨goOn, mid⟩, -, later⟩ := bind_ok.mp scanned
        cases goOn with
        | true => exact (Nat.le_succ i).trans (ih later)
        | false =>
            obtain ⟨-, rfl, -⟩ := Prod.mk.inj (Except.ok.inj later)
            exact Nat.le_refl _
      · obtain ⟨-, rfl, -⟩ := Prod.mk.inj (Except.ok.inj scanned)
        exact Nat.le_refl _

/-- The loop reaches the end of the headers only over some byte. -/
theorem scan_lt {str rest : Bytes} {i j : Nat} {s s' : Scan}
    (scanned : scan str i rest s = .ok (true, j, s')) (before : s.hState ≠ .endLF)
    (after : s'.hState = .endLF) : i < j ∧ rest ≠ [] := by
  cases rest with
  | nil =>
      obtain ⟨-, -, rfl⟩ := Prod.mk.inj (Except.ok.inj scanned)
      exact absurd after before
  | cons c rest =>
      refine ⟨?_, List.cons_ne_nil c rest⟩
      unfold scan at scanned
      split at scanned
      · obtain ⟨⟨goOn, mid⟩, -, later⟩ := bind_ok.mp scanned
        cases goOn with
        | true => exact scan_le later
        | false => cases later
      · obtain ⟨-, -, rfl⟩ := Prod.mk.inj (Except.ok.inj scanned)
        exact absurd after before

theorem parseHeaders_le {flag : HeaderState} (parsed : parseHeaders d = .ok (flag, d')) :
    d'.inBuffer.length ≤ d.inBuffer.length := by
  obtain ⟨⟨finished, i, s⟩, -, parsed⟩ := bind_ok.mp parsed
  dsimp only at parsed
  split_ifs at parsed
  · obtain ⟨-, rfl⟩ := Prod.mk.inj (Except.ok.inj parsed)
    exact (List.drop_sublist _ _).length_le
  · obtain ⟨-, rfl⟩ := Prod.mk.inj (Except.ok.inj parsed)
    exact (List.drop_sublist _ _).length_le
  · obtain ⟨-, rfl⟩ := Prod.mk.inj (Except.ok.inj parsed)
    exact Nat.le_refl _

/-- Headers that are complete take a byte. -/
theorem parseHeaders_lt (start : d.hState = .start)
    (parsed : parseHeaders d = .ok (.success, d')) : d'.inBuffer.length < d.inBuffer.length := by
  obtain ⟨⟨finished, i, s⟩, scanned, parsed⟩ := bind_ok.mp parsed
  dsimp only at parsed
  split_ifs at parsed with complete ended
  · obtain ⟨-, rfl⟩ := Prod.mk.inj (Except.ok.inj parsed)
    rw [complete] at scanned
    obtain ⟨positive, nonempty⟩ := scan_lt scanned (by simp [start]) ended
    have length := List.length_pos_of_ne_nil nonempty
    rw [List.length_drop]
    omega
  · cases parsed
  · cases parsed

theorem parseURI_le (d : HttpData) : (parseURI d).2.inBuffer.length ≤ d.inBuffer.length := by
  have shorter : ∀ behind, (if d.inBuffer.length > behind then d.inBuffer.drop behind else
      []).length ≤ d.inBuffer.length := fun behind => by
    split
    · exact (List.drop_sublist _ _).length_le
    · exact Nat.zero_le _
  simp only [parseURI, Nat.not_lt_zero, if_false]
  split
  · exact shorter _
  · split
    · exact shorter _
    · split
      · exact shorter _
      · split <;> exact shorter _

theorem parseURI_hState (d : HttpData) : (parseURI d).2.hState = d.hState := by
  obtain ⟨inBuffer, method, fileName, version, parsed⟩ := parseURI_frame d
  rw [parsed]

theorem judgeBody_keeps {r : HttpData × Verdict} (done : judgeBody d = .ok r) :
    r.1.inBuffer = d.inBuffer ∧ (r.2 = .wait → r.1.state = d.state) := by
  unfold judgeBody at done
  split at done
  · obtain rfl := Except.ok.inj done
    exact ⟨rfl, nofun⟩
  · split at done
    · cases done
    · split at done
      · obtain rfl := Except.ok.inj done
        exact ⟨rfl, fun _ => rfl⟩
      · obtain rfl := Except.ok.inj done
        exact ⟨rfl, nofun⟩

theorem judgeHeaders_le {r : HttpData × Verdict} (done : judgeHeaders d = .ok r) :
    r.1.inBuffer.length ≤ d.inBuffer.length := by
  obtain ⟨⟨flag, mid⟩, parsed, done⟩ := bind_ok.mp done
  have shorter := parseHeaders_le parsed
  cases flag with
  | again | error =>
      obtain rfl := Except.ok.inj done
      exact shorter
  | success =>
      dsimp only at done
      split at done
      · exact (judgeBody_keeps done).1.symm ▸ shorter
      · obtain rfl := Except.ok.inj done
        exact shorter

/-- A new request is analysed only if it has taken a byte, and waits if it is incomplete. -/
structure Begins (d : HttpData) (r : HttpData × Verdict) : Prop where
  takes : r.2 = .analyse → r.1.inBuffer.length < d.inBuffer.length
  waits : r.2 = .wait → r.1.state ≠ .finish

theorem Begins.refuses {r : HttpData × Verdict} {shortMsg : Bytes}
    (verdict : r.2 = .refuse shortMsg) : Begins d r := by
  constructor <;> simp [verdict]

theorem Begins.idles {r : HttpData × Verdict} (verdict : r.2 = .wait)
    (state : r.1.state ≠ .finish) : Begins d r := by
  constructor <;> simp [verdict, state]

theorem parseURI_ne_again (d : HttpData) : (parseURI d).1 ≠ .again := by
  simp only [parseURI, Nat.not_lt_zero, if_false]
  split
  · simp
  · split
    · simp
    · split
      · simp
      · split <;> simp

theorem judgeHeaders_begins {r : HttpData × Verdict} (state : d.state = .parseHeaders)
    (start : d.hState = .start) (done : judgeHeaders d = .ok r) : Begins d r := by
  obtain ⟨⟨flag, mid⟩, parsed, done⟩ := bind_ok.mp done
  have kept : mid.state = d.state := by rw [parseHeaders_keeps parsed]
  cases flag with
  | again =>
      obtain rfl := Except.ok.inj done
      exact .idles rfl (by simp [kept, state])
  | error =>
      obtain rfl := Except.ok.inj done
      exact .refuses rfl
  | success =>
      have shorter := parseHeaders_lt start parsed
      dsimp only at done
      split at done
      · obtain ⟨same, waits⟩ := judgeBody_keeps done
        exact ⟨fun _ => same.symm ▸ shorter, fun waiting => by simp [waits waiting]⟩
      · obtain rfl := Except.ok.inj done
        exact ⟨fun _ => shorter, by simp⟩

theorem judgeState_le {r : HttpData × Verdict} (done : judgeState d = .ok r) :
    r.1.inBuffer.length ≤ d.inBuffer.length := by
  unfold judgeState at done
  split at done
  · unfold judgeURI at done
    have shorter := parseURI_le d
    generalize parseURI d = parsed at done shorter
    obtain ⟨flag, mid⟩ := parsed
    cases flag with
    | again =>
        obtain rfl := Except.ok.inj done
        exact shorter
    | error =>
        obtain rfl := Except.ok.inj done
        exact Nat.zero_le _
    | success => exact (judgeHeaders_le done).trans shorter
  · exact judgeHeaders_le done
  · exact (judgeBody_keeps done).1.symm ▸ Nat.le_refl _
  · obtain rfl := Except.ok.inj done
    exact Nat.le_refl _
  · obtain rfl := Except.ok.inj done
    exact Nat.le_refl _

theorem judgeState_begins {r : HttpData × Verdict} (done : judgeState d = .ok r)
    (state : d.state = .parseURI) (start : d.hState = .start) : Begins d r := by
  rw [judgeState, state] at done
  dsimp only [judgeURI] at done
  have shorter := parseURI_le d
  have start := (parseURI_hState d).trans start
  have never := parseURI_ne_again d
  generalize parseURI d = parsed at done shorter start never
  obtain ⟨flag, mid⟩ := parsed
  cases flag with
  | again => exact absurd rfl never
  | error =>
      obtain rfl := Except.ok.inj done
      exact .refuses rfl
  | success =>
      obtain ⟨takes, waits⟩ :=
        judgeHeaders_begins (d := { mid with state := .parseHeaders }) rfl start done
      exact ⟨fun analysed => (takes analysed).trans_le shorter, waits⟩

theorem judge_le {r : HttpData × Verdict} (done : judge d reads = .ok r) :
    r.1.inBuffer.length ≤ (readn reads d.inBuffer 0).inBuffer.length := by
  simp only [judge] at done
  split_ifs at done
  · obtain rfl := Except.ok.inj done
    exact Nat.zero_le _
  · obtain rfl := Except.ok.inj done
    exact Nat.le_refl _
  · obtain rfl := Except.ok.inj done
    exact Nat.le_refl _
  · exact judgeState_le done
  · exact judgeState_le done

/-- Between two requests. -/
structure Fresh (d : HttpData) : Prop where
  state : d.state = .parseURI
  hState : d.hState = .start

theorem judge_begins {r : HttpData × Verdict} (fresh : Fresh d) (done : judge d reads = .ok r) :
    Begins { d with inBuffer := (readn reads d.inBuffer 0).inBuffer } r := by
  have idle : d.state ≠ .finish := by simp [fresh.state]
  simp only [judge] at done
  split_ifs at done
  · obtain rfl := Except.ok.inj done
    exact .idles rfl idle
  · obtain rfl := Except.ok.inj done
    exact .refuses rfl
  · obtain rfl := Except.ok.inj done
    exact .idles rfl idle
  · obtain ⟨takes, waits⟩ := judgeState_begins done fresh.state fresh.hState
    exact ⟨takes, waits⟩
  · obtain ⟨takes, waits⟩ := judgeState_begins done fresh.state fresh.hState
    exact ⟨takes, waits⟩

/-! ## Turns -/

theorem writenString_reads (socket : Socket) (sbuff : Bytes) :
    (writenString socket sbuff).2.2.reads = socket.reads := by
  simp only [writenString]
  split_ifs <;> rfl

/-- Flushing leaves alone what is to be parsed. -/
theorem flush_keeps (d : HttpData) (socket : Socket) :
    (flush d socket).1.inBuffer = d.inBuffer ∧ (flush d socket).1.state = d.state ∧
      (flush d socket).1.method = d.method ∧ (flush d socket).2.reads = socket.reads := by
  obtain ⟨outBuffer, events, error, same⟩ := flush_same d socket
  rw [same]
  refine ⟨rfl, rfl, rfl, ?_⟩
  rcases flush_socket d socket with written | written <;> rw [written]
  exact writenString_reads socket d.outBuffer

theorem carryOut_keeps (fs : FileSystem) (socket : Socket) (decided : HttpData × Verdict) :
    (carryOut fs socket decided).1.inBuffer = decided.1.inBuffer ∧
      (carryOut fs socket decided).2.reads = socket.reads := by
  obtain ⟨d, verdict⟩ := decided
  cases verdict with
  | wait | refuse => exact ⟨rfl, rfl⟩
  | analyse =>
      simp only [carryOut, analyse, analysisRequest_eq]
      cases replyTo fs d <;> exact ⟨rfl, rfl⟩

/-- If `handleRead` is called again, a request was finished. -/
theorem afterRead_again {socket socket' : Socket}
    (ended : afterRead d socket = (true, d', socket')) :
    d.error = false ∧ d.state = .finish ∧ Fresh d' ∧ d'.inBuffer = d.inBuffer ∧
      socket'.reads = socket.reads := by
  unfold afterRead at ended
  split at ended
  · cases ended
  · rename_i noError
    obtain ⟨inBuffer, state, -, reads⟩ := flush_keeps d socket
    generalize flush d socket = written at ended inBuffer state reads
    obtain ⟨mid, rest⟩ := written
    simp only [Prod.mk.injEq] at ended
    obtain ⟨again, rfl, rfl⟩ := ended
    unfold finishPass at again ⊢
    split_ifs at again ⊢ with finished
    exact ⟨by simpa using noError, state ▸ finished.2, ⟨rfl, rfl⟩, inBuffer, reads⟩

/-- What a connection can still be given to read. -/
def supply (d : HttpData) (socket : Socket) : Nat := d.inBuffer.length + unread socket.reads

/-- A turn that is followed by another one. -/
theorem handleReadPass_again {socket socket' : Socket}
    (done : handleReadPass fs d socket = .ok (true, d', socket')) :
    Fresh d' ∧ supply d' socket' ≤ supply d socket ∧
      (Fresh d → supply d' socket' < supply d socket) := by
  obtain ⟨decided, mid, rest, judged, carried, ended⟩ := handleReadPass_decides done
  obtain ⟨noError, finished, fresh, inBuffer, left⟩ := afterRead_again ended
  have kept := carryOut_keeps fs
    { socket with reads := (readn socket.reads d.inBuffer 0).reads } decided
  rw [carried] at kept
  have bound := readn_unread socket.reads d.inBuffer 0
  have shorter := judge_le judged
  have sum : supply d' socket' =
      decided.1.inBuffer.length + unread (readn socket.reads d.inBuffer 0).reads := by
    rw [supply, inBuffer, left, kept.1, kept.2]
  rw [sum, supply]
  refine ⟨fresh, by omega, fun before => ?_⟩
  obtain ⟨takes, waits⟩ := judge_begins before judged
  cases verdict : decided.2 with
  | wait =>
      rw [carryOut, verdict] at carried
      exact absurd finished ((Prod.mk.inj carried).1 ▸ waits verdict)
  | refuse shortMsg =>
      rw [carryOut, verdict] at carried
      rw [← (Prod.mk.inj carried).1] at noError
      cases noError
  | analyse =>
      have taken := takes verdict
      dsimp only at taken
      omega

theorem handleReadPass_fault {socket : Socket} {fault : Fault}
    (failed : handleReadPass fs d socket = .error fault) : fault ≠ .outOfFuel := by
  rcases bind_error.mp failed with read | ⟨_, -, failed⟩
  · rw [readOnce_judge] at read
    cases judged : judge d socket.reads with
    | error fault' =>
        rw [judged] at read
        exact Except.error.inj read ▸ judge_fault judged
    | ok decided =>
        rw [judged] at read
        cases read
  · cases failed

theorem handleReadFuel_fault {fuel : Nat} {socket : Socket} {fault : Fault} (fresh : Fresh d)
    (enough : supply d socket < fuel) (failed : handleReadFuel fs fuel d socket = .error fault) :
    fault ≠ .outOfFuel := by
  induction fuel generalizing d socket with
  | zero => exact absurd enough (Nat.not_lt_zero _)
  | succ fuel ih =>
      rcases bind_error.mp failed with pass | ⟨⟨again, mid, rest⟩, pass, later⟩
      · exact handleReadPass_fault pass
      · cases again with
        | false => cases later
        | true =>
            obtain ⟨fresh', -, less⟩ := handleReadPass_again pass
            exact ih fresh' (Nat.lt_of_lt_of_le (less fresh) (Nat.le_of_lt_succ enough)) later

/-- Whatever the connection has read before, `handleRead` comes to an end. -/
theorem handleRead_fault {socket : Socket} {fault : Fault}
    (failed : handleRead fs d socket = .error fault) : fault ≠ .outOfFuel := by
  rcases bind_error.mp failed with pass | ⟨⟨again, mid, rest⟩, pass, later⟩
  · exact handleReadPass_fault pass
  · cases again with
    | false => cases later
    | true =>
        obtain ⟨fresh, bound, -⟩ := handleReadPass_again pass
        exact handleReadFuel_fault fresh (Nat.lt_succ_of_le bound) later

end Corio.Epoll
