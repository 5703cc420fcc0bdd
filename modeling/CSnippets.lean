import CSnippets.Spec.RingBufferCorrect
import CSnippets.Spec.LinkedListCorrect
import CSnippets.Spec.StateMachineIds
import CSnippets.Spec.StatesHandlerTrace
import CSnippets.Spec.StatesHandlerRefs
import CSnippets.Spec.ButtonsCorrect
import CSnippets.Spec.ButtonTasksLock
import CSnippets.Spec.ButtonTasksFind
import CSnippets.Spec.AsyncMessageQueueText
import CSnippets.Spec.TcpClientCorrect
import CSnippets.Spec.MultiServerHandover
import CSnippets.Spec.SigioDrained
import CSnippets.Spec.AsyncTcpMultithreadCorrect
import CSnippets.Spec.AsyncUdpDeinit
import CSnippets.Spec.MyStringCorrect
import CSnippets.Spec.RingBufferBounds
import CSnippets.Spec.LinkedListFrame
import CSnippets.Spec.StateMachineInit
import CSnippets.Spec.StatesHandlerQueue
import CSnippets.Spec.ButtonPresses
import CSnippets.Spec.ButtonPressesText
import CSnippets.Spec.ButtonDebounce
import CSnippets.Spec.ConditionalWaitCorrect
import CSnippets.Spec.PosixMessageQueuesCorrect
import CSnippets.Spec.AnyBaseCorrect
import CSnippets.Spec.RegexTermination
import CSnippets.Spec.StaticStringCorrect
import CSnippets.Spec.AsyncUdpLocks
import CSnippets.Spec.UdpDrained
import CSnippets.Spec.MessageQueueServersCorrect
import CSnippets.Spec.PosixMessageQueuesEnd
import CSnippets.Spec.YahtzeeRolls
import CSnippets.ForStd.Ioctl
import CSnippets.ForStd.RecordCopy
import CSnippets.Native.AiGovernor
import CSnippets.Spec.AiGovernorCorrect
import CSnippets.ForStd.SharedSignal
import CSnippets.Native.AiGovernorApp
import CSnippets.Native.AsyncUdpSignals
import CSnippets.Spec.AiGovernorAlone
import CSnippets.Spec.AiGovernorApp
import CSnippets.Spec.AiGovernorLoading
import CSnippets.Spec.AsyncUdpRouting
import CSnippets.Spec.ConditionalWaitEnds
import CSnippets.ForStd.Histories
import CSnippets.Native.SingleUdpSignals
import CSnippets.Spec.AsyncUdpRounds
import CSnippets.Spec.PosixMessageQueuesStopped
import CSnippets.Spec.SingleUdpCallback
import CSnippets.Spec.SingleUdpRegistered
import CSnippets.Spec.TcpClientStreams
import CSnippets.Native.PosixMutex
import CSnippets.Spec.PosixMutexCorrect
import CSnippets.Spec.RingBufferHistory
import CSnippets.Spec.YahtzeeGame
import CSnippets.Spec.AsyncUdpLedger
import CSnippets.Spec.AsyncUdpTeardown
import CSnippets.Spec.RegexSession
import CSnippets.Spec.StateMachineDistinct
import CSnippets.Spec.AsyncMessageQueueStranded
