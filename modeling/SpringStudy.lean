import SpringStudy.Tables
import SpringStudy.Runs
import SpringStudy.Outcomes
import SpringStudy.TtlCaches
import SpringStudy.MediaRoom
import SpringStudy.MediaRoomManager
import SpringStudy.MediaSession
import SpringStudy.MediaBuffer
import SpringStudy.MediaSocket
import SpringStudy.MediaPublishers
import SpringStudy.MediaLogin
import SpringStudy.Threads
import SpringStudy.MediaThreads
import SpringStudy.MediaSerial
import SpringStudy.MediaLockOrder
import SpringStudy.MediaStaleRooms
import SpringStudy.ChatStore
import SpringStudy.ChatCallFlow
import SpringStudy.ChatAccept
import SpringStudy.ChatInvitations
import SpringStudy.TtlTimers
import SpringStudy.MediaTtlCache
import SpringStudy.ChatTtlCache
import SpringStudy.ChatCalls
import SpringStudy.ChatRegistration
import SpringStudy.MediaMonitor
import SpringStudy.MediaMessages
import SpringStudy.MediaEndpoints
import SpringStudy.MediaIsolation
import SpringStudy.MediaCandidates
import SpringStudy.MediaEarlyCandidates
import SpringStudy.Pools
import SpringStudy.Handover
import SpringStudy.MediaHandover
import SpringStudy.RoomPosts
import SpringStudy.ChatSessions
import SpringStudy.OneToMany
import SpringStudy.OneToOne
import SpringStudy.OneToOnePipelines
import SpringStudy.OneToOneCalls
import SpringStudy.Kurento
import SpringStudy.KurentoStatuses
import SpringStudy.KurentoReconnect
import SpringStudy.JavaStrings
import SpringStudy.KurentoSelection
import SpringStudy.MediaOffers
import SpringStudy.Brackets
import SpringStudy.MediaMembers
import SpringStudy.MediaTtlConsumers
import SpringStudy.ChatRejections
import SpringStudy.MediaDepartures
import SpringStudy.MediaKurentoDown
import SpringStudy.CallRecording
import SpringStudy.FilteringRegistry
import SpringStudy.CallRecordingCandidates
import SpringStudy.CallRecordingPipelines
import SpringStudy.Interleavings
import SpringStudy.SpinLock
import SpringStudy.ReadWrite
import SpringStudy.MediaBufferIndex
import SpringStudy.MemberCache
import SpringStudy.MediaReleases
import SpringStudy.CallRooms
import SpringStudy.HelloProtocol
import SpringStudy.Balking
import SpringStudy.FilteringCalls
import SpringStudy.GuardedSuspension
import SpringStudy.ProdCons
import SpringStudy.Mailboxes
import SpringStudy.OneToOnePages
import SpringStudy.OneToOneProtocol
