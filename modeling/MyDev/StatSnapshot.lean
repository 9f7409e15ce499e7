import MyDev.DeviceLock
import MyDev.KbufHeap
import MyDev.Library.Folds

set_option autoImplicit false

namespace MyDev

open Library

def Kb.lengths (kbuf : Kb) : List Int := kbuf.nodes.map (fun node => (node.length : Int))

theorem init_stat_length (ds : Ds) (kbuf : Kb) (block : Nat → Int) :
    ((dsInitStat ds kbuf.count block).dsList.length : Int) = kbuf.count := by
  have nonneg := kb_count_nonneg kbuf
  simp only [dsInitStat, List.length_map, List.length_range]
  omega

theorem scan_lengths (ds : Ds) (kbuf : Kb) (block : Nat → Int) :
    kbScan (dsInitStat ds kbuf.count block).dsList kbuf = kbuf.lengths := by
  have allocated := init_stat_length ds kbuf block
  have counted := kbuf.counted
  rw [kbScan, List.drop_eq_nil_of_le (by omega), List.append_nil]
  rfl

structure Snapshot (ds : Ds) (kbuf : Kb) : Prop where
  list : ds.dsList = kbuf.lengths
  dim : ds.dsDim = kbuf.count
  filled : 0 < kbuf.count

theorem ds_populate_snapshot (ds : Ds) (kbuf : Kb) (block : Nat → Int) (filled : 0 < kbuf.count) :
    Snapshot (dsPopulate ds kbuf block).2 kbuf := by
  simp only [dsPopulate, if_pos (show kbuf.count ≠ 0 by omega)]
  exact ⟨scan_lengths ds kbuf block, rfl, filled⟩

section Values

variable {ds : Ds} {kbuf : Kb}

end Values

section Iteration

variable {ι : Type}

theorem kt_stat_work_none_iff (ds : Ds) (kbuf : Kb) (env : Env) :
    ktStatWork ds kbuf env = none ↔ kbuf.count ≠ 0 ∧ env.ok = false := by
  by_cases empty : kbuf.count = 0
  · simp [ktStatWork, ds_populate_len, empty]
  · have filled : 0 < kbuf.count := by
      have nonneg := kb_count_nonneg kbuf
      omega
    have dim := (ds_populate_snapshot ds kbuf env.block filled).dim
    have divides : ∃ med, dsMed (dsPopulate ds kbuf env.block).2 = some med := by
      rw [dsMed, cDiv, dim, if_neg (by omega)]
      exact ⟨_, rfl⟩
    obtain ⟨med, divided⟩ := divides
    by_cases memory : env.ok = false <;> simp [ktStatWork, ds_populate_len, empty, memory, divided]

theorem kt_stat_step (s : Dev ι) (env : Env) (point : (s.kts .ktStat).pc = .work) :
    ∃ next out, ktStep s .ktStat env = some (next, out) ∧ next.kbFifo = s.kbFifo ∧
      next.devStat.dsKbMax = s.devStat.dsKbMax ∧
      ((next.kts .ktStat).pc = .oops ↔ s.kbFifo.count ≠ 0 ∧ env.ok = false) ∧
      ((next.kts .ktStat).pc ≠ .oops → next.devStat.dsKbDim = wrap (s.devStat.dsKbDim + 1) ∧
        (Fits (s.devStat.dsKbDim + 1) → next.devStat.dsKbDim = s.devStat.dsKbDim + 1) ∧
        next.devStat.dsKbSum = wrap (s.devStat.dsKbSum + s.kbFifo.count) ∧
        (Fits (s.devStat.dsKbSum + s.kbFifo.count) → next.devStat.dsKbSum = s.devStat.dsKbSum + s.kbFifo.count)) := by
  have dies := kt_stat_work_none_iff s.devStat s.kbFifo env
  cases work : ktStatWork s.devStat s.kbFifo env with
  | none =>
      refine ⟨s.gotoKt .ktStat .oops, [], by simp only [ktStep, point, work], rfl, rfl, ?_, ?_⟩
      · rw [← dies, work]
        simp
      · intro alive
        simp at alive
  | some ds =>
      obtain ⟨dim, limit, sum⟩ := kt_stat_work_spec _ _ _ _ work
      refine ⟨{ s with devStat := ds }.gotoKt .ktStat (.unlock true), _, by simp only [ktStep, point, work]; rfl, rfl, limit, ?_, ?_⟩
      · rw [← dies, work]
        simp
      · exact fun _ => ⟨dim, fun fits => dim.trans (wrap_of_fits _ fits), sum, fun fits => sum.trans (wrap_of_fits _ fits)⟩

end Iteration

end MyDev
