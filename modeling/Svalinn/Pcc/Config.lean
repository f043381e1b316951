/-
  Pcc/Config.lean --- constants of the PCC server and client.

  Source: `breakwater/src/pcc_config.h`, `breakwater/inc/breakwater/pcc.h` and
  `breakwater/inc/breakwater/rpc.h`.  `SPCC_MICRO_EXP_STRICT_LABELLING` is 0 and
  `SPCC_MICRO_EXP_PERTURB_CB` is 1 throughout.
-/
import Mathlib.Data.Nat.Basic

set_option autoImplicit false

namespace Svalinn.Pcc

/-- `SPCC_QDELAY_BUDGET`: queueing delay budget of a request. -/
def qdelayBudget : Nat := 300
/-- `SPCC_RTT_US`. -/
def rttUs : Nat := 40
/-- `SPCC_PRE_MI_US`: wait before a micro-experiment is monitored. -/
def preMiUs : Nat := 200
/-- `SPCC_MI_US`: monitor interval. -/
def miUs : Nat := 400
/-- `SPCC_EPSILON`: credit pool change granularity. -/
def epsilon : Int := 1
/-- `SPCC_MAX_WINDOW_EXP`. -/
def maxWindowExp : Nat := 6
/-- `SPCC_MAX_WINDOW`: slots of a session. -/
def maxWindow : Nat := 64
/-- `CPCC_MAX_CLIENT_DELAY_US`. -/
def maxClientDelayUs : Nat := 40
/-- `SPCC_MAX_NUM_MICRO_EXPS`. -/
def maxNumMicroExps : Nat := 2
/-- `SRPC_BUF_SIZE`: largest payload. -/
def srpcBufSize : Nat := 2048
/-- `CRPC_QLEN`: length of the client's request queue. -/
def crpcQlen : Nat := 16

end Svalinn.Pcc
