import SinglePortRam.Rtl.TraceLaw
import SinglePortRam.Env.BusTrace
import SinglePortRam.Env.EdgeOrder
import SinglePortRam.Env.RandomItems
import SinglePortRam.Env.WidthAgreement
import SinglePortRam.Env.Session
import SinglePortRam.Env.SlaveAgreement
import SinglePortRam.Env.CrossTalk
import SinglePortRam.Env.ResetInterleaving
import SinglePortRam.Env.SerialOrder
import SinglePortRam.Env.Completion
import SinglePortRam.Uvm.HandshakeRuns
import SinglePortRam.Uvm.Progress
import SinglePortRam.Uvm.Packing
import SinglePortRam.Uvm.ConfigStore
import SinglePortRam.Uvm.ObjectionRuns
